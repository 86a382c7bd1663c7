import MemberDoc.Proofs.ClassBody
import MemberDoc.Proofs.ClassMention

set_option autoImplicit false

/-! A class beside a place where a source changes. It is found again when a doc comment before some class is
exchanged, and when statements are put behind a brace before it. -/

namespace MemberDoc.Source

private theorem namespaceAt_transparent (gap rest : Text) (transparent : isTransparent (.letters 0) gap = true)
    (silent : namespaceAt? rest = none) : namespaceAt? (gap ++ rest) = none := by
  induction gap with
  | nil => exact silent
  | cons c gap ih =>
      rcases isTransparent_cases c gap transparent with ⟨blank, going⟩ | rfl | ⟨letter, other, _⟩
      · rw [← List.singleton_append, List.append_assoc, namespaceAt_blank [c] _ fun d member => by
          rw [List.mem_singleton.mp member]
          exact blank]
        exact ih going
      · exact namespaceAt_other '#' (gap ++ rest) rfl (by decide)
      · apply namespaceAt_other c (gap ++ rest) _ other
        by_cases blank : Text.isBlank c = true
        · have apart := Text.not_isWord_of_isBlank c blank
          rw [Text.isWord_of_isAlpha c letter] at apart
          cases apart
        · simpa using blank

private theorem namespaceAt_opening (source className : Text) (site : Site) (known : site? source className = some site)
    (more : Text) : namespaceAt? (site.opening ++ more) = none := by
  obtain ⟨found, _, _⟩ := (site_eq_some_iff source className site).mp known
  obtain ⟨_, _, rest, attempt⟩ := findDeclaration_spec _ _ _ _ _ found
  obtain ⟨_, _, _, keyword, _⟩ := declarationAt_lexemes _ _ attempt
  have folded := foldCase_keyword _ _ _ _ keyword
  obtain ⟨c, word, starts, isWord⟩ := (declarationAt_parts rest _ attempt).keyword
  change site.declaration.keyword = c :: word at starts
  change site.declaration.keyword.map Text.foldCase ∈ kindWords at folded
  rw [starts] at folded
  have other : ∀ word ∈ kindWords, word.head? ≠ some 'n' := by decide
  rw [Site.opening, starts]
  apply namespaceAt_other c
  · by_cases blank : Text.isBlank c = true
    · rw [Text.not_isWord_of_isBlank c blank] at isWord
      cases isWord
    · simpa using blank
  · intro letter
    exact other _ folded (congrArg some letter)

theorem Shifted.namespaceOf_eq {lead pad other tail : Text} {found new : Declaration}
    (shifted : Shifted lead pad other tail found new) (isPad : Text.IsPad pad) (isOther : Text.IsPad other)
    (apart : ∀ last, lead.getLast? = some last → IsScopeEnd last) (silent : namespaceAt? tail = none) :
    namespaceOf new.before = namespaceOf found.before := by
  cases shifted with
  | inside rest whole named after same => rw [same]
  | gapped gap following whole spaced same => rw [same]
  | around start modifiers whole padded same => rw [same]
  | behind passed before following same =>
      rw [following] at silent
      rw [same, before, List.append_assoc, List.append_assoc]
      exact namespaceOf_beside lead other pad passed isOther isPad apart
        (namespaceAt_endsAtBarrier.none_of_append passed _ silent)

private theorem Shifted.after_cases {lead pad other tail : Text} {found new : Declaration}
    (shifted : Shifted lead pad other tail found new) :
    new.after = found.after ∨ ∃ rest, lead = found.before ++ found.text ++ rest ∧
      found.after = rest ++ (pad ++ tail) ∧ new.after = rest ++ (other ++ tail) := by
  cases shifted with
  | inside rest whole named after same => exact .inr ⟨rest, whole, after, by rw [same]⟩
  | gapped gap following whole spaced same => exact .inl (by rw [same])
  | around start modifiers whole padded same => exact .inl (by rw [same])
  | behind passed before following same => exact .inl (by rw [same])

private theorem IsPad.hasNoBrace {pad : Text} (isPad : Text.IsPad pad) : HasNoBrace pad := by
  intro c member
  rcases isPad c member with rfl | rfl
  · decide
  · decide

/-- Every class is found again when a pad before one class is exchanged, with the same body unless the pad
stands right in it. -/
theorem site_beside (source other host className : Text) (anchor site : Site) (hosted : site? source host = some anchor)
    (known : site? source className = some site) {lead pad padding behind : Text}
    (padded : anchor.Padded source other lead pad padding behind)
    (outside : ∀ inner, lead = site.declaration.lead ++ site.opening ++ inner → braceDepth? 0 inner ≠ some 0) :
    ∃ new, site? other className = some new ∧ KeepsBody site.tail new.tail := by
  obtain ⟨mark, _, _⟩ := (site_eq_some_iff source host anchor).mp hosted
  obtain ⟨found, scope, opened⟩ := (site_eq_some_iff source className site).mp known
  have silent := namespaceAt_transparent behind _ padded.transparent
    (namespaceAt_opening source host anchor hosted anchor.tail)
  rw [padded.masked] at mark found
  obtain ⟨new, search, shifted⟩ := findDeclaration_beside _ _ [] lead pad padding _ behind 0 padded.isPad
    padded.isPadding (fun last ends => (padded.apart last ends).1) padded.stops padded.thin (Nat.zero_le _)
    (by rw [List.append_nil]; exact padded.similar) anchor.declaration mark padded.place site.declaration found
  rw [← padded.maskedOther] at search
  have inNamespace := shifted.namespaceOf_eq padded.isPad padded.isPadding padded.apart silent
  rw [← inNamespace] at scope
  have at' (head tail : Text) (brace : Text.splitFirst? ['\x7b'] new.after = some (head, tail)) :
      site? other className = some ⟨new, head, tail⟩ :=
    (site_eq_some_iff _ _ _).mpr ⟨search, scope, brace⟩
  rcases shifted.after_cases with same | ⟨rest, whole, after, newAfter⟩
  · rw [← same] at opened
    exact ⟨_, at' _ _ opened, .refl _⟩
  · have flat (text : Text) (isPad : Text.IsPad text) : '\x7b' ∉ text :=
      fun member => (IsPad.hasNoBrace isPad _ member).1 rfl
    rw [after] at opened
    rcases Text.splitFirst_exchange '\x7b' rest pad padding _ _ _ (flat pad padded.isPad)
      (flat padding padded.isPadding) opened with ⟨inner, split, tail, brace⟩ | ⟨newHead, brace⟩
    · rw [← newAfter] at brace
      refine ⟨_, at' _ _ brace, ?_⟩
      rw [tail]
      refine keepsBody_exchange inner pad padding _ (outside inner ?_) ?_ ?_
      · rw [List.reverse_nil, List.nil_append] at whole
        rw [whole, split]
        simp only [Site.opening, Declaration.text, Declaration.lead, List.append_assoc, List.cons_append,
          List.nil_append]
      · exact braceDepth_flat 0 pad (IsPad.hasNoBrace padded.isPad)
      · exact braceDepth_flat 0 padding (IsPad.hasNoBrace padded.isPadding)
    · rw [← newAfter] at brace
      exact ⟨_, at' _ _ brace, .refl _⟩

/-- A text that a search for a class passes over, and that sets no namespace. -/
structure Passes (wanted text : Text) : Prop where
  search : ∀ reversed more, Similar [] reversed →
    findDeclaration? wanted reversed 0 (text ++ more) = findDeclaration? wanted (text.reverse ++ reversed) 0 more
  clear : ∀ reversed, Similar [] reversed → Similar [] (text.reverse ++ reversed)
  lines : ∀ atStart more, findAtLines namespaceAt? 0 atStart (text ++ more) =
    findAtLines namespaceAt? 0 (startsLine atStart text) more

theorem Passes.append {wanted left right : Text} (first : Passes wanted left) (second : Passes wanted right) :
    Passes wanted (left ++ right) where
  search := fun reversed more similar => by
    rw [List.append_assoc, first.search reversed _ similar, second.search _ more (first.clear reversed similar),
      List.reverse_append, List.append_assoc]
  clear := fun reversed similar => by
    rw [List.reverse_append, List.append_assoc]
    exact second.clear _ (first.clear reversed similar)
  lines := fun atStart more => by
    rw [List.append_assoc, first.lines, second.lines, startsLine_append]

theorem passes_nil (wanted : Text) : Passes wanted [] :=
  ⟨fun _ _ _ => rfl, fun _ similar => similar, fun _ _ => rfl⟩

theorem passes_feed (wanted : Text) : Passes wanted ['\n'] where
  search := fun reversed more _ => findDeclaration_pad wanted reversed ['\n'] more (Text.forall_of_all (by decide))
  clear := fun reversed similar => ⟨rfl, similar.access⟩
  lines := fun atStart more => findAtLines_feed atStart more

theorem passes_statement (wanted text : Text) (ends : text.getLast? = some ';')
    (undeclared : findDeclaration? wanted [] 0 text = none) (unset : findAtLines namespaceAt? 0 true text = []) :
    Passes wanted text where
  search := fun reversed more similar => by
    have missing : findDeclaration? wanted reversed 0 text = none := by
      cases found : findDeclaration? wanted reversed 0 text with
      | none => rfl
      | some declaration =>
          obtain ⟨_, _, _, _, again⟩ := findDeclaration_similar wanted reversed [] 0 text
            ⟨similar.starts.symm, similar.access.symm⟩ declaration found
          rw [undeclared] at again
          cases again
    rw [findDeclaration_extend wanted reversed 0 text more (fun last is => by rw [ends] at is; cases is; rfl)
      (Nat.zero_le _), missing]
  clear := fun reversed _ => by
    obtain ⟨front, whole⟩ := List.getLast?_eq_some_iff.mp ends
    rw [whole, List.reverse_append]
    exact ⟨rfl, rfl⟩
  lines := fun atStart more => by
    have nothing : findAtLines namespaceAt? 0 atStart text = [] := by
      cases atStart with
      | true => exact unset
      | false => exact findAtLines_inside namespaceAt? text unset
    rw [findAtLines_extend namespaceAt? namespaceAt_endsAtBarrier text more
      (fun last is => by rw [ends] at is; cases is; rfl) 0 atStart (Nat.zero_le _), nothing, List.nil_append]

private theorem length_opened_le (wanted front rest : Text) (site : Site) (declaration : Declaration)
    (ends : front.getLast? = some '\x7b') (found : findDeclaration? wanted [] 0 front = some declaration)
    (extended : site.declaration = { declaration with after := declaration.after ++ rest })
    (opened : Text.splitFirst? ['\x7b'] site.declaration.after = some (site.head, site.tail)) :
    (site.declaration.lead ++ site.opening).length ≤ front.length := by
  obtain ⟨passed, before, _, whole, _⟩ := findDeclaration_similar wanted [] [] 0 front ⟨rfl, rfl⟩ declaration found
  obtain ⟨_, _, text, attempt⟩ := findDeclaration_spec wanted [] 0 front declaration found
  have parts := declarationAt_parts text _ attempt
  have filled : declaration.after ≠ [] := by
    intro empty
    rw [whole, empty, List.append_nil, Declaration.text, ← List.append_assoc,
      Text.getLast_suffix _ declaration.name parts.named] at ends
    cases parts.nameChars '\x7b' (List.mem_of_getLast? ends)
  have brace : '\x7b' ∈ declaration.after := by
    rw [whole, ← List.append_assoc, Text.getLast_suffix _ _ filled] at ends
    exact List.mem_of_getLast? ends
  obtain ⟨head, inner, split, absent⟩ := List.eq_append_cons_of_mem brace
  have here : Text.splitFirst? ['\x7b'] site.declaration.after = some (head, inner ++ rest) := by
    rw [extended]
    change Text.splitFirst? ['\x7b'] (declaration.after ++ rest) = _
    rw [split, List.append_assoc]
    exact (Text.splitFirst_char '\x7b' head (inner ++ rest)).mpr absent
  rw [opened] at here
  have same : site.head = head := congrArg Prod.fst (Option.some.inj here)
  rw [whole, split, Site.opening, same, extended]
  simp only [Declaration.lead, Declaration.text, before, List.reverse_nil, List.nil_append, List.length_append,
    List.length_cons, List.length_nil]
  omega

/-- A class behind a brace is found again when a text that passes is put behind that brace. -/
theorem site_behind (source other className : Text) (site : Site) (known : site? source className = some site)
    (front text rest : Text) (masked : mask .code source = front ++ rest)
    (maskedOther : mask .code other = front ++ (text ++ rest)) (ends : front.getLast? = some '\x7b')
    (late : front.length < (site.declaration.lead ++ site.opening).length) (silent : namespaceAt? rest = none)
    (passes : Passes (ClassName.short (ClassName.qualified className)) text) :
    ∃ new, site? other className = some new ∧ new.tail = site.tail := by
  obtain ⟨found, scope, opened⟩ := (site_eq_some_iff source className site).mp known
  have barrier : ∀ last, front.getLast? = some last → Text.isBarrier last = true :=
    fun last is => by rw [ends] at is; cases is; rfl
  have search (more : Text) :=
    findDeclaration_extend (ClassName.short (ClassName.qualified className)) [] 0 front more barrier (Nat.zero_le _)
  rw [masked, search] at found
  cases early : findDeclaration? (ClassName.short (ClassName.qualified className)) [] 0 front with
  | some declaration =>
      rw [early] at found
      have bound := length_opened_le _ front rest site declaration ends early (Option.some.inj found).symm opened
      omega
  | none =>
      rw [early] at found search
      dsimp only at found search
      rw [List.append_nil] at found search
      have clear : Similar [] front.reverse := by
        obtain ⟨lead, whole⟩ := List.getLast?_eq_some_iff.mp ends
        rw [whole, List.reverse_append]
        exact ⟨rfl, rfl⟩
      have cleared := passes.clear front.reverse clear
      obtain ⟨passed, before, _, following, again⟩ := findDeclaration_similar _ front.reverse
        (text.reverse ++ front.reverse) 0 rest
        ⟨clear.starts.symm.trans cleared.starts, clear.access.symm.trans cleared.access⟩ site.declaration found
      rw [List.reverse_append, List.reverse_reverse, List.reverse_reverse] at again
      rw [List.reverse_reverse] at before
      have lines : findAtLines namespaceAt? 0 true (front ++ text ++ passed) =
          findAtLines namespaceAt? 0 true (front ++ passed) := by
        have extend (more : Text) := findAtLines_extend namespaceAt? namespaceAt_endsAtBarrier front more barrier 0 true
          (Nat.zero_le _)
        rw [following] at silent
        rw [List.append_assoc, extend, extend, passes.lines]
        congr 1
        exact findAtLines_unread namespaceAt? passed (namespaceAt_endsAtBarrier.none_of_append passed _ silent) _ _
      refine ⟨⟨{ site.declaration with before := front ++ text ++ passed }, site.head, site.tail⟩,
        (site_eq_some_iff _ _ _).mpr ⟨?_, ?_, opened⟩, rfl⟩
      · rw [maskedOther, search, passes.search front.reverse rest clear]
        exact again
      · change Text.sameName (namespaceOf (front ++ text ++ passed)) _ = true
        rw [before] at scope
        unfold namespaceOf at scope ⊢
        rw [lines]
        exact scope

end MemberDoc.Source
