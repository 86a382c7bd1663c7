import MemberDoc.Proofs.ClassSite
import MemberDoc.Proofs.CommentText
import MemberDoc.Proofs.ScopeLines

set_option autoImplicit false

/-! The doc comment of a class. A class is found again, with the same outline, behind another doc comment
or behind a first one. -/

namespace MemberDoc.Source

private theorem similar_of_pads (lead pad other : Text) (isPad : Text.IsPad pad) (isOther : Text.IsPad other)
    (apart : ∀ last, lead.getLast? = some last → Text.isWord last = false) :
    Similar (pad.reverse ++ lead.reverse) (other.reverse ++ lead.reverse) := by
  have starts (pad : Text) (isPad : Text.IsPad pad) : Text.startsWord (pad.reverse ++ lead.reverse).head? = true := by
    rw [← List.reverse_append, List.head?_reverse]
    cases last : (lead ++ pad).getLast? with
    | none => rfl
    | some c =>
        have apartHere : Text.isWord c = false := by
          by_cases empty : pad = []
          · rw [empty, List.append_nil] at last
            exact apart c last
          · rw [Text.getLast_suffix lead pad empty] at last
            exact Text.not_isWord_of_isBlank c (isPad.blank c (List.mem_of_getLast? last))
        simp [Text.startsWord, apartHere]
  have access (pad : Text) (isPad : Text.IsPad pad) :
      isMemberAccess (pad.reverse ++ lead.reverse) = isMemberAccess lead.reverse := by
    unfold isMemberAccess
    rw [List.dropWhile_append_of_pos fun c member => isPad.blank c (List.mem_reverse.mp member)]
  exact ⟨by rw [starts pad isPad, starts other isOther], by rw [access pad isPad, access other isOther]⟩

private theorem contains_around (word left pad right : Text) (filled : pad ≠ []) (apart : ∀ c ∈ pad, c ∉ word)
    (found : Text.contains word (left ++ pad ++ right) = true) :
    Text.contains word left = true ∨ Text.contains word right = true := by
  induction pad generalizing left with
  | nil => exact absurd rfl filled
  | cons c pad ih =>
      rw [List.append_assoc, List.cons_append] at found
      rcases Text.contains_apart word left (pad ++ right) c (apart c List.mem_cons_self) found with front | later
      · exact .inl front
      · by_cases empty : pad = []
        · rw [empty] at later
          exact .inr later
        · rcases ih [] empty (fun d member => apart d (List.mem_cons_of_mem c member)) later with nothing | behind
          · obtain ⟨lead, tail, whole⟩ := (Text.contains_iff word []).mp nothing
            rw [List.append_assoc, List.nil_eq, List.append_eq_nil_iff, List.append_eq_nil_iff] at whole
            rw [whole.2.1]
            exact .inl ((Text.contains_iff [] left).mpr ⟨[], left, rfl⟩)
          · exact .inr behind

private theorem foldCase_modifier (c : Char) (word : Text) (known : Text.lower (c :: word) ∈ modifierWords) :
    Text.foldCase c ≠ 'n' := by
  have other : ∀ modifier ∈ modifierWords, modifier.head? ≠ some 'n' := by decide
  have letter := other _ known
  intro folded
  unfold Text.foldCase at folded
  split at folded
  · cases folded
  · split at folded
    · cases folded
    · exact letter (congrArg some folded)

theorem isTransparent_cases (c : Char) (rest : Text) (transparent : isTransparent (.letters 0) (c :: rest) = true) :
    (Text.isBlank c = true ∧ isTransparent (.letters 0) rest = true) ∨ c = '#' ∨
      (c.isAlpha = true ∧ Text.foldCase c ≠ 'n' ∧
        isTransparent (.letters (rest.takeWhile Char.isAlpha).length) rest = true) := by
  have unfolded : isTransparent (.letters 0) (c :: rest) =
      (if Text.isBlank c then isTransparent (.letters 0) rest
      else if c = '#' && rest.head? = some '[' then isTransparent (.attribute 0) rest
      else
        let word := (c :: rest).takeWhile Char.isAlpha
        if modifierWords.contains (Text.lower word) then isTransparent (.letters (word.length - 1)) rest
        else false) := rfl
  rw [unfolded] at transparent
  by_cases blank : Text.isBlank c = true
  · rw [if_pos blank] at transparent
    exact .inl ⟨blank, transparent⟩
  rw [if_neg blank] at transparent
  by_cases sign : c = '#'
  · exact .inr (.inl sign)
  rw [if_neg (by simp [sign])] at transparent
  dsimp only at transparent
  split at transparent
  · rename_i known
    by_cases letter : c.isAlpha = true
    · rw [List.takeWhile_cons_of_pos letter] at transparent known
      exact .inr (.inr ⟨letter, foldCase_modifier c _ (List.contains_iff_mem.mp known), transparent⟩)
    · rw [List.takeWhile_cons_of_neg letter] at known
      exact absurd known (by decide)
  · cases transparent

private theorem isQuiet_letters (count : Nat) (text front behind : Text)
    (letters : ∀ c ∈ text.take count, c.isAlpha = true) (transparent : isTransparent (.letters count) text = true)
    (whole : text = front ++ behind) (clean : Text.IsClean front) (c : Char) (member : c ∈ front) :
    Text.isBarrier c = false := by
  have unbarred (d : Char) (taken : d.isAlpha = true ∨ Text.isBlank d = true) : Text.isBarrier d = false := by
    by_cases barrier : Text.isBarrier d = true
    · obtain ⟨word, blank, _⟩ := Text.not_taken_of_isBarrier d barrier
      rcases taken with alpha | spaced
      · rw [Text.isWord_of_isAlpha d alpha] at word
        cases word
      · rw [spaced] at blank
        cases blank
    · simpa using barrier
  induction front generalizing count text with
  | nil => cases member
  | cons d front ih =>
      subst whole
      have later (rest : Nat) (alpha : ∀ c ∈ (front ++ behind).take rest, c.isAlpha = true)
          (going : isTransparent (.letters rest) (front ++ behind) = true) (inside : c ∈ front) :=
        ih rest (front ++ behind) alpha going rfl (fun sign => clean (List.mem_cons_of_mem d sign)) inside
      cases count with
      | succ count =>
          rw [List.cons_append, List.take_succ_cons] at letters
          rcases List.mem_cons.mp member with rfl | inside
          · exact unbarred c (.inl (letters c List.mem_cons_self))
          · exact later count (fun e taken => letters e (List.mem_cons_of_mem d taken)) transparent inside
      | zero =>
          rcases isTransparent_cases d (front ++ behind) transparent with ⟨blank, going⟩ | sign | ⟨letter, _, going⟩
          · rcases List.mem_cons.mp member with rfl | inside
            · exact unbarred c (.inr blank)
            · exact later 0 (fun e taken => by cases taken) going inside
          · exact absurd (sign ▸ List.mem_cons_self) clean
          · rcases List.mem_cons.mp member with rfl | inside
            · exact unbarred c (.inl letter)
            · refine later _ (fun e taken => ?_) going inside
              rw [← List.prefix_iff_eq_take.mp ( List.takeWhile_prefix Char.isAlpha)] at taken
              exact List.all_eq_true.mp List.all_takeWhile e taken

/-- Before its first attribute a transparent gap has no barrier. -/
theorem isQuiet_of_isTransparent (text : Text) (transparent : isTransparent (.letters 0) text = true) : IsQuiet text :=
  fun front behind whole clean c member =>
    isQuiet_letters 0 text front behind (fun d taken => by cases taken) transparent whole clean c member

private theorem IsQuiet.front {front behind : Text} (quiet : IsQuiet (front ++ behind)) : IsQuiet front :=
  fun lead rest whole clean c member => quiet lead (rest ++ behind) (by rw [whole, List.append_assoc]) clean c member

/-- The namespace and the imports before a declaration do not change with a pad before it. -/
theorem scope_of_moved {lead pad other behind : Text} {found new : Declaration}
    (moved : Moved lead pad other behind found new) (isPad : Text.IsPad pad) (isOther : Text.IsPad other)
    (quiet : IsQuiet behind) :
    namespaceOf new.before = namespaceOf found.before ∧ importsOf new.before = importsOf found.before := by
  cases moved with
  | around front start whole before modifiers same =>
      rw [same]
      exact ⟨rfl, rfl⟩
  | behind passed whole before same =>
      rw [whole] at quiet
      have lines {α : Type} (read? : Text → Option (α × Text)) (reader : EndsAtBarrier read?) :
          findAtLines read? 0 true new.before = findAtLines read? 0 true found.before := by
        rw [same, before, List.append_assoc, List.append_assoc]
        exact findAtLines_around read? reader lead other pad passed isOther isPad quiet.front 0 true (Nat.zero_le _)
      unfold namespaceOf importsOf
      rw [lines _ namespaceAt_endsAtBarrier, lines _ importAt_endsAtBarrier]
      exact ⟨rfl, rfl⟩

private theorem isAbstract_of_moved {lead pad other behind : Text} {found new : Declaration}
    (moved : Moved lead pad other behind found new) (isOther : Text.IsPad other) (filled : other ≠ [])
    (concrete : found.isAbstract = false) : new.isAbstract = false := by
  cases moved with
  | behind passed whole before same =>
      rw [same]
      exact concrete
  | around front start whole before modifiers same =>
      rw [Declaration.isAbstract, Bool.eq_false_iff] at concrete ⊢
      intro found
      rw [same, Text.lower, List.map_append, List.map_append] at found
      have apart : ∀ c ∈ other.map Char.toLower, c ∉ "abstract".toList := by
        intro c member
        obtain ⟨d, inside, rfl⟩ := List.mem_map.mp member
        rcases isOther d inside with rfl | rfl <;> decide
      apply concrete
      rw [modifiers, Text.lower, List.map_append, List.map_append]
      rcases contains_around _ _ _ _ (by simpa using filled) apart found with front | rest
      · obtain ⟨left, right, place⟩ := (Text.contains_iff _ _).mp front
        rw [place]
        exact (Text.contains_iff _ _).mpr ⟨left, _, by simp only [List.append_assoc]; rfl⟩
      · obtain ⟨left, right, place⟩ := (Text.contains_iff _ _).mp rest
        rw [place]
        exact (Text.contains_iff _ _).mpr
          ⟨start.map Char.toLower ++ pad.map Char.toLower ++ left, right, by simp only [List.append_assoc]⟩

structure Site.Agrees (site new : Site) : Prop where
  opening : new.opening = site.opening
  tail : new.tail = site.tail
  kind : new.declaration.kind = site.declaration.kind
  concrete : site.declaration.isAbstract = false → new.declaration.isAbstract = false
  parent : new.parent = site.parent

/-- A pad before the keyword of a class, which becomes another pad in another source. -/
structure Site.Padded (site : Site) (source other lead pad padding behind : Text) : Prop where
  isPad : Text.IsPad pad
  isPadding : Text.IsPad padding
  filled : padding ≠ []
  masked : mask .code source = lead ++ (pad ++ (behind ++ (site.opening ++ site.tail)))
  maskedOther : mask .code other = lead ++ (padding ++ (behind ++ (site.opening ++ site.tail)))
  place : site.declaration.lead = lead ++ pad ++ behind
  apart : ∀ last, lead.getLast? = some last → IsScopeEnd last
  stops : Text.StopsName lead pad (behind ++ (site.opening ++ site.tail))
  thin : pad = [] → behind = []
  transparent : isTransparent (.letters 0) behind = true

theorem Site.Padded.similar {site : Site} {source other lead pad padding behind : Text}
    (padded : site.Padded source other lead pad padding behind) :
    Similar (pad.reverse ++ lead.reverse) (padding.reverse ++ lead.reverse) :=
  similar_of_pads lead pad padding padded.isPad padded.isPadding fun last ends => (padded.apart last ends).1

theorem site_moved (source other className : Text) (site : Site) (known : site? source className = some site)
    {lead pad padding behind : Text} (padded : site.Padded source other lead pad padding behind) :
    ∃ new, site? other className = some new ∧ new.declaration.lead = lead ++ padding ++ behind ∧ site.Agrees new := by
  obtain ⟨found, scope, opened⟩ := (site_eq_some_iff source className site).mp known
  rw [padded.masked] at found
  obtain ⟨new, search, moved⟩ := findDeclaration_around _ lead pad padding _ behind padded.isPad padded.isPadding
    (fun last ends => (padded.apart last ends).1) padded.stops padded.thin padded.similar site.declaration found
    padded.place
  obtain ⟨inNamespace, imports⟩ := scope_of_moved moved padded.isPad padded.isPadding
    (isQuiet_of_isTransparent behind padded.transparent)
  have rest : new.keyword = site.declaration.keyword ∧ new.gap = site.declaration.gap ∧
      new.name = site.declaration.name ∧ new.after = site.declaration.after := by
    cases moved with
    | behind passed whole before same => exact same ▸ ⟨rfl, rfl, rfl, rfl⟩
    | around front start whole before modifiers same => exact same ▸ ⟨rfl, rfl, rfl, rfl⟩
  obtain ⟨keyword, gap, name, after⟩ := rest
  have kind : new.kind = site.declaration.kind := by rw [Declaration.kind, keyword]; rfl
  refine ⟨⟨new, site.head, site.tail⟩, (site_eq_some_iff _ _ _).mpr ⟨?_, ?_, ?_⟩, moved.new_lead, ?_, rfl, kind, ?_, ?_⟩
  · rw [padded.maskedOther]
    exact search
  · change Text.sameName (namespaceOf new.before) _ = true
    rw [inNamespace]
    exact scope
  · change Text.splitFirst? _ new.after = _
    rw [after]
    exact opened
  · unfold Site.opening
    rw [keyword, gap, name]
  · exact isAbstract_of_moved moved padded.isPadding padded.filled
  · unfold Site.parent
    rw [kind, inNamespace, imports]

private theorem mem_of_attachedComment (comments : List DocComment) (lead : Text) (comment : DocComment)
    (attached : attachedComment? comments lead = some comment) : comment ∈ comments := by
  unfold attachedComment? at attached
  obtain ⟨found, search, chosen⟩ := Option.bind_eq_some_iff.mp attached
  split at chosen
  · cases chosen
    exact List.mem_reverse.mp (List.mem_of_find?_eq_some search)
  · cases chosen

/-- A source cut around the doc comment of a class as well. -/
structure Site.Framed (site : Site) (source front comment behind opening tail : Text) : Prop where
  cut : site.Cut source (front ++ (comment ++ behind)) opening tail
  isComment : IsComment comment
  before : Reads .code front (comment ++ (behind ++ (opening ++ tail))) (mask .code front) .code
  after : Reads .code behind (opening ++ tail) (mask .code behind) .code
  lone : docComments 0 .code behind = []
  transparent : isTransparent (.letters 0) (mask .code behind) = true

private theorem Reads.stop_le {text rest shown : Text} (reads : Reads .code text rest shown .code) (offset : Nat)
    (comment : DocComment) (member : comment ∈ docComments offset .code text) :
    comment.stop ≤ offset + Text.byteLength text := by
  obtain ⟨before, _, behind, _, _, _, _, whole, start, _⟩ := reads.cut_comment offset comment member
  grind [DocComment.stop]

theorem IsComment.reads {comment : Text} (isComment : IsComment comment) (rest : Text) :
    Reads .code comment rest (hide comment) .code := by
  obtain ⟨inner, rfl, unclosed⟩ := isComment
  exact reads_comment ('*' :: inner) rest unclosed

theorem IsComment.docComments_append {comment : Text} (isComment : IsComment comment) (offset : Nat) (rest : Text) :
    docComments offset .code (comment ++ rest) =
      ⟨offset, comment⟩ :: docComments (offset + Text.byteLength comment) .code rest := by
  obtain ⟨inner, rfl, unclosed⟩ := isComment
  exact docComments_comment offset inner rest unclosed

private theorem IsComment.byteLength_pos {comment : Text} (isComment : IsComment comment) :
    0 < Text.byteLength comment := by
  obtain ⟨inner, rfl, _⟩ := isComment
  exact Text.byteLength_pos '/' _

theorem docComments_framed (front comment behind rest shown : Text) (isComment : IsComment comment)
    (before : Reads .code front (comment ++ (behind ++ rest)) shown .code) :
    docComments 0 .code (front ++ (comment ++ behind)) =
      docComments 0 .code front ++ ⟨Text.byteLength front, comment⟩ ::
        docComments (Text.byteLength front + Text.byteLength comment) .code behind := by
  have slash : (comment ++ (behind ++ rest)).head? = (comment ++ behind).head? := by
    obtain ⟨inner, rfl, _⟩ := isComment
    rfl
  rw [(before.swap (comment ++ behind) slash).docComments_append 0, isComment.docComments_append, Nat.zero_add]

theorem Site.Cut.framed {site : Site} {source lead opening tail : Text} (cut : site.Cut source lead opening tail)
    (comment : DocComment) (attached : site.docComment source = some comment) :
    ∃ front behind, lead = front ++ (comment.text ++ behind) ∧ Text.byteLength front = comment.start ∧
      site.Framed source front comment.text behind opening tail := by
  rw [cut.docComment_eq] at attached
  have member := mem_of_attachedComment _ _ comment attached
  obtain ⟨front, inner, behind, leadMask, tailMask, shape, unclosed, whole, start, shown, before, after⟩ :=
    cut.front.cut_comment 0 comment member
  rw [Nat.zero_add] at start
  have isComment : IsComment comment.text := ⟨inner, shape, unclosed⟩
  rw [List.append_assoc] at before
  have comments := docComments_framed front comment.text behind (opening ++ tail) leadMask isComment before
  rw [whole, comments] at attached
  have same : DocComment.mk (Text.byteLength front) comment.text = comment := by rw [← start]
  have reach : Text.byteLength site.declaration.lead =
      Text.byteLength front + Text.byteLength comment.text + Text.byteLength behind := by
    grind [cut.front.byteLength_shown]
  -- A later comment would be the attached one.
  have lone : docComments (Text.byteLength front + Text.byteLength comment.text) .code behind = [] := by
    rcases List.eq_nil_or_concat (docComments (Text.byteLength front + Text.byteLength comment.text) .code behind)
      with empty | ⟨others, last, split⟩
    · exact empty
    · rw [List.concat_eq_append] at split
      have inside : last ∈ docComments (Text.byteLength front + Text.byteLength comment.text) .code behind := by
        rw [split]
        exact List.mem_append_right others List.mem_cons_self
      have stop := after.stop_le _ last inside
      have late := (start_of_mem_docComments _ .code True.intro behind last inside).1
      have regroup : docComments 0 .code front ++ DocComment.mk (Text.byteLength front) comment.text ::
          (others ++ [last]) =
          (docComments 0 .code front ++ DocComment.mk (Text.byteLength front) comment.text :: others) ++ [last] := by
        simp only [List.append_assoc, List.cons_append]
      rw [split, regroup, attachedComment_concat _ last _ (by omega)] at attached
      split at attached
      · cases attached
        have positive := isComment.byteLength_pos
        omega
      · cases attached
  rw [lone, attachedComment_concat _ _ _ (by rw [DocComment.stop, reach]; exact Nat.le_add_right _ _)] at attached
  have gap : Text.dropBytes (DocComment.mk (Text.byteLength front) comment.text).stop site.declaration.lead =
      mask .code behind := by
    have size : (DocComment.mk (Text.byteLength front) comment.text).stop =
        Text.byteLength (leadMask ++ hide comment.text) := by
      simp [DocComment.stop, before.byteLength_shown, (isComment.reads []).byteLength_shown]
    rw [size, shown, ← List.append_assoc, Text.dropBytes_append, after.shown_eq]
  rw [gap] at attached
  rw [after.shown_eq] at after
  rw [before.shown_eq] at before
  refine ⟨front, behind, whole, start.symm, whole ▸ cut, isComment, before, after,
    docComments_offset _ 0 .code True.intro behind lone, ?_⟩
  split at attached
  · assumption
  · cases attached

theorem isComment_of_docComment (source className : Text) (site : Site) (known : site? source className = some site)
    (comment : DocComment) (attached : site.docComment source = some comment) :
    IsComment comment.text ∧ ∃ before behind, source = before ++ comment.text ++ behind ∧
      Text.byteLength before = comment.start := by
  obtain ⟨lead, opening, tail, cut⟩ := cut_of_site source className site known
  obtain ⟨front, behind, place, start, framed⟩ := cut.framed comment attached
  refine ⟨framed.isComment, front, behind ++ (opening ++ tail), ?_, start⟩
  rw [cut.whole, place]
  simp only [List.append_assoc]

theorem IsComment.reads_around {comment : Text} (isComment : IsComment comment) {front behind rest : Text}
    (before : Reads .code front (comment ++ (behind ++ rest)) (mask .code front) .code)
    (after : Reads .code behind rest (mask .code behind) .code) :
    Reads .code (front ++ (comment ++ behind)) rest (mask .code front ++ (hide comment ++ mask .code behind)) .code := by
  rw [← List.append_assoc] at before
  exact before.append ((isComment.reads _).append after)

namespace Site.Framed

variable {site : Site} {source front comment behind opening tail : Text}

theorem lead_eq (framed : site.Framed source front comment behind opening tail) :
    site.declaration.lead = mask .code front ++ (hide comment ++ mask .code behind) := by
  rw [framed.cut.front.shown_eq, (framed.isComment.reads_around framed.before framed.after).shown_eq]

theorem docComment_eq (framed : site.Framed source front comment behind opening tail) :
    site.docComment source = some ⟨Text.byteLength front, comment⟩ := by
  have size : (DocComment.mk (Text.byteLength front) comment).stop =
      Text.byteLength (mask .code front ++ hide comment) := by
    simp [DocComment.stop, (framed.isComment.reads []).byteLength_shown]
  rw [framed.cut.docComment_eq, docComments_framed _ _ _ _ _ framed.isComment framed.before,
    docComments_offset 0 _ .code True.intro behind framed.lone, framed.lead_eq, ← List.append_assoc,
    attachedComment_concat _ _ _ (by grind),
    size, Text.dropBytes_append, if_pos framed.transparent]

theorem of_agrees {new : Site} {old : Text} (cut : site.Cut source old opening tail) (agrees : site.Agrees new)
    (isComment : IsComment comment)
    (before : Reads .code front (comment ++ (behind ++ (opening ++ tail))) (mask .code front) .code)
    (after : Reads .code behind (opening ++ tail) (mask .code behind) .code)
    (lone : docComments 0 .code behind = []) (transparent : isTransparent (.letters 0) (mask .code behind) = true)
    (lead : new.declaration.lead = mask .code front ++ (hide comment ++ mask .code behind)) :
    new.Framed (front ++ (comment ++ behind) ++ (opening ++ tail)) front comment behind opening tail where
  cut := {
    whole := rfl
    front := by
      rw [lead]
      exact isComment.reads_around before after
    opened := by
      rw [agrees.opening]
      exact cut.opened
    starts := cut.starts
    ends := cut.ends
    behind := by rw [cut.behind, agrees.tail] }
  isComment := isComment
  before := before
  after := after
  lone := lone
  transparent := transparent

end Site.Framed

theorem isPad_hide (text : Text) : Text.IsPad (hide text) :=
  isSpace_of_mem_hide text

/-- A doc comment that is exchanged is a pad that is exchanged. The slash that opens both comments becomes a
space, which keeps names before the comment apart. -/
theorem Site.Framed.padded {site : Site} {source front comment behind opening tail : Text}
    (framed : site.Framed source front comment behind opening tail) (fresh : Text) (isFresh : IsComment fresh) :
    ∃ pad padding, hide fresh = ' ' :: padding ∧
      site.Padded source (front ++ (fresh ++ behind) ++ (opening ++ tail)) (mask .code front ++ [' ']) pad padding
        (mask .code behind) := by
  have before := framed.before.swap (fresh ++ (behind ++ (opening ++ tail))) (by
    obtain ⟨inner, rfl, _⟩ := framed.isComment
    obtain ⟨inner, rfl, _⟩ := isFresh
    rfl)
  have shape (text : Text) (isText : IsComment text) : ∃ rest, hide text = ' ' :: ' ' :: hide rest := by
    obtain ⟨inner, rfl, _⟩ := isText
    exact ⟨_, rfl⟩
  obtain ⟨old, oldShape⟩ := shape comment framed.isComment
  obtain ⟨new, newShape⟩ := shape fresh isFresh
  have spaced (text : Text) : Text.IsPad (' ' :: hide text) := by
    intro c member
    rcases List.mem_cons.mp member with rfl | inside
    · exact .inl rfl
    · exact isPad_hide text c inside
  have masked := framed.cut.mask_eq
  rw [framed.lead_eq, oldShape] at masked
  refine ⟨' ' :: hide old, ' ' :: hide new, newShape, ?_⟩
  exact {
    isPad := spaced old
    isPadding := spaced new
    filled := List.cons_ne_nil _ _
    masked := by
      rw [masked]
      simp only [List.append_assoc, List.cons_append, List.nil_append]
    maskedOther := by
      rw [(isFresh.reads_around before framed.after).mask_eq, framed.cut.opened.mask_eq, framed.cut.behind, newShape]
      simp only [List.append_assoc, List.cons_append, List.nil_append]
    place := by
      rw [framed.lead_eq, oldShape]
      simp only [List.append_assoc, List.cons_append, List.nil_append]
    apart := fun last ends => by
      rw [List.getLast?_concat] at ends
      cases ends
      exact ⟨rfl, by decide⟩
    stops := .inl fun last ends => by
      rw [List.getLast?_concat] at ends
      cases ends
      rfl
    thin := fun empty => absurd empty (List.cons_ne_nil _ _)
    transparent := framed.transparent }

theorem site_recommented (source className : Text) (site : Site) (known : site? source className = some site)
    {front comment behind opening tail : Text} (framed : site.Framed source front comment behind opening tail)
    (fresh : Text) (isFresh : IsComment fresh) :
    ∃ new, site? (front ++ (fresh ++ behind) ++ (opening ++ tail)) className = some new ∧ site.Agrees new ∧
      new.Framed (front ++ (fresh ++ behind) ++ (opening ++ tail)) front fresh behind opening tail := by
  have before := framed.before.swap (fresh ++ (behind ++ (opening ++ tail))) (by
    obtain ⟨inner, rfl, _⟩ := framed.isComment
    obtain ⟨inner, rfl, _⟩ := isFresh
    rfl)
  obtain ⟨pad, padding, hidden, padded⟩ := framed.padded fresh isFresh
  obtain ⟨moved, found, lead, agrees⟩ := site_moved source _ className site known padded
  refine ⟨moved, found, agrees, .of_agrees framed.cut agrees isFresh before framed.after framed.lone
    framed.transparent ?_⟩
  rw [lead, hidden]
  simp only [List.append_assoc, List.cons_append, List.nil_append]

theorem isNameChar_of_isWord (c : Char) (word : Text.isWord c = true) : Text.isNameChar c = true := by
  unfold Text.isWord at word
  split at word
  · simp only [Char.isAlphanum, Bool.or_eq_true, beq_iff_eq] at word
    simp only [Text.isNameChar, Text.isNameStart, Bool.or_eq_true, beq_iff_eq]
    rcases word with (alpha | digit) | mark
    · exact .inl (.inl (.inl alpha))
    · exact .inr digit
    · exact .inl (.inl (.inr mark))
  · rename_i large
    have size : 0x80 ≤ c.toNat := by omega
    simp [Text.isNameChar, Text.isNameStart, size]

private theorem Site.Cut.opening_head {site : Site} {source lead opening tail : Text}
    (cut : site.Cut source lead opening tail) :
    ∃ c rest, site.opening = c :: rest ∧ Text.isWord c = true := by
  obtain ⟨c, starts, word⟩ := cut.starts
  cases opening with
  | nil => cases starts
  | cons d rest =>
      cases starts
      have letter := reads_inert [c] rest fun d member => by
        rw [List.mem_singleton.mp member]
        exact isInert_of_isWord c word
      exact ⟨c, mask .code rest, cut.opened.shown_eq.trans letter.mask_eq, word⟩

/-- A doc comment before a class that has none is a pad where there was none. -/
theorem Site.Cut.padded {site : Site} {source className lead opening tail : Text}
    (cut : site.Cut source lead opening tail) (known : site? source className = some site)
    (apart : lead.getLast? ≠ some '/') (fresh : Text) (isFresh : IsComment fresh) :
    site.Padded source (lead ++ (fresh ++ ['\n']) ++ (opening ++ tail)) site.declaration.lead []
      (hide fresh ++ ['\n']) [] := by
  have leadMask := cut.front.shown_eq
  have before : Reads .code lead (fresh ++ (['\n'] ++ (opening ++ tail))) (mask .code lead) .code := by
    rw [← leadMask]
    exact cut.front.followed _ fun slash => absurd slash apart
  have feed : Reads .code ['\n'] (opening ++ tail) (mask .code ['\n']) .code :=
    reads_inert ['\n'] (opening ++ tail) (Text.forall_of_all (by decide))
  obtain ⟨c, rest, starts, word⟩ := cut.opening_head
  have found := ((site_eq_some_iff source className site).mp known).1
  exact {
    isPad := fun c member => by cases member
    isPadding := by
      intro c member
      rcases List.mem_append.mp member with hidden | last
      · exact isPad_hide fresh c hidden
      · exact .inr (List.mem_singleton.mp last)
    filled := List.append_ne_nil_of_right_ne_nil _ (List.cons_ne_nil _ _)
    masked := cut.mask_eq
    maskedOther := by
      rw [(isFresh.reads_around before feed).mask_eq, cut.opened.mask_eq, cut.behind, ← leadMask]
      simp only [List.append_assoc, List.nil_append]
      rfl
    place := by rw [List.append_nil, List.append_nil]
    apart := findDeclaration_apart _ _ _ _ _ found
    stops := .inr ⟨rfl, c, rest ++ site.tail, by rw [starts]; rfl, isNameChar_of_isWord c word⟩
    thin := fun _ => rfl
    transparent := rfl }

theorem site_commented (source className : Text) (site : Site) (known : site? source className = some site)
    {lead opening tail : Text} (cut : site.Cut source lead opening tail) (apart : lead.getLast? ≠ some '/')
    (fresh : Text) (isFresh : IsComment fresh) :
    ∃ new, site? (lead ++ (fresh ++ ['\n']) ++ (opening ++ tail)) className = some new ∧ site.Agrees new ∧
      new.Framed (lead ++ (fresh ++ ['\n']) ++ (opening ++ tail)) lead fresh ['\n'] opening tail := by
  have leadMask := cut.front.shown_eq
  have before : Reads .code lead (fresh ++ (['\n'] ++ (opening ++ tail))) (mask .code lead) .code := by
    rw [← leadMask]
    exact cut.front.followed _ fun slash => absurd slash apart
  have feed : Reads .code ['\n'] (opening ++ tail) (mask .code ['\n']) .code :=
    reads_inert ['\n'] (opening ++ tail) (Text.forall_of_all (by decide))
  obtain ⟨moved, search, newLead, agrees⟩ := site_moved source _ className site known (cut.padded known apart fresh isFresh)
  refine ⟨moved, search, agrees, .of_agrees cut agrees isFresh before feed rfl rfl ?_⟩
  rw [newLead, ← leadMask, List.append_nil]
  rfl

end MemberDoc.Source
