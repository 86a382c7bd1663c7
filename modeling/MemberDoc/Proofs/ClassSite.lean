import MemberDoc.Proofs.DeclarationSearch
import MemberDoc.Proofs.Masking
import MemberDoc.Source.Outline

set_option autoImplicit false

/-! The place of a class in a source. Its outline is read off this place, and the class is found at the
same place when the text behind its opening brace is exchanged. -/

namespace MemberDoc.Source

/-- A class in a masked source: its declaration, what follows up to the opening brace, and the text
behind that brace. -/
structure Site where
  declaration : Declaration
  head : Text
  tail : Text
  deriving DecidableEq

def site? (source className : Text) : Option Site :=
  match findDeclaration? (ClassName.short (ClassName.qualified className)) [] 0 (mask .code source) with
  | none => none
  | some declaration =>
      if Text.sameName (namespaceOf declaration.before) (ClassName.enclosing (ClassName.qualified className)) then
        (Text.splitFirst? ['\x7b'] declaration.after).map fun (head, tail) => ⟨declaration, head, tail⟩
      else none

namespace Site

def opening (site : Site) : Text :=
  site.declaration.keyword ++ site.declaration.gap ++ site.declaration.name ++ site.head ++ ['\x7b']

def keywordOffset (site : Site) : Nat :=
  Text.byteLength site.declaration.lead

def bodyOffset (site : Site) : Nat :=
  Text.byteLength (site.declaration.lead ++ site.opening)

def body (site : Site) : Text :=
  bodyOf 0 site.tail

def closeOffset (site : Site) : Nat :=
  site.bodyOffset + Text.byteLength site.body

def parent (site : Site) : Option Text :=
  match site.declaration.kind, parentName? none site.head with
  | .plain, some parent =>
      some (resolve (namespaceOf site.declaration.before) (importsOf site.declaration.before) parent)
  | _, _ => none

def docComment (site : Site) (source : Text) : Option DocComment :=
  attachedComment? (docComments 0 .code source) site.declaration.lead

def outline (site : Site) (source : Text) : Outline where
  kind := site.declaration.kind
  isAbstract := site.declaration.isAbstract
  parent := site.parent
  properties := (memberNames site.body).properties
  methods := (memberNames site.body).methods
  docComment := site.docComment source

end Site

theorem site_eq_some_iff (source className : Text) (site : Site) :
    site? source className = some site ↔
      findDeclaration? (ClassName.short (ClassName.qualified className)) [] 0 (mask .code source) =
          some site.declaration ∧
        Text.sameName (namespaceOf site.declaration.before)
          (ClassName.enclosing (ClassName.qualified className)) = true ∧
        Text.splitFirst? ['\x7b'] site.declaration.after = some (site.head, site.tail) := by
  obtain ⟨declaration, head, tail⟩ := site
  unfold site?
  cases findDeclaration? (ClassName.short (ClassName.qualified className)) [] 0 (mask .code source) with
  | none => simp
  | some found =>
      by_cases same : found = declaration
      · subst same
        by_cases scope : Text.sameName (namespaceOf found.before)
            (ClassName.enclosing (ClassName.qualified className)) = true
        · simp [scope]
        · simp [scope]
      · simp only [Option.some.injEq, same, false_and, iff_false]
        split
        · rw [Option.map_eq_some_iff]
          rintro ⟨parts, _, whole⟩
          exact same (congrArg Site.declaration whole)
        · exact Option.some_ne_none _ ∘ Eq.symm

theorem outline_eq_ok_iff (source className : Text) (outline : Outline) :
    Source.outline source className = .ok outline ↔
      ∃ site, site? source className = some site ∧ outline = site.outline source := by
  unfold Source.outline site?
  dsimp only
  cases findDeclaration? (ClassName.short (ClassName.qualified className)) [] 0 (mask .code source) with
  | none => simp [bind, Except.bind]
  | some found =>
      by_cases scope : Text.sameName (namespaceOf found.before)
          (ClassName.enclosing (ClassName.qualified className)) = true
      · cases opened : Text.splitFirst? ['\x7b'] found.after with
        | none => simp [bind, Except.bind, scope, opened]
        | some parts =>
            simp only [bind, Except.bind, pure, Except.pure, scope, opened, Bool.not_true, Bool.false_eq_true, if_false,
              if_true, Option.map_some, Except.ok.injEq, Option.some.injEq, exists_eq_left']
            exact eq_comm
      · simp [bind, Except.bind, scope]

/-- A source cut before the keyword of a class and behind its opening brace. -/
structure Site.Cut (site : Site) (source lead opening tail : Text) : Prop where
  whole : source = lead ++ (opening ++ tail)
  front : Reads .code lead (opening ++ tail) site.declaration.lead .code
  opened : Reads .code opening tail site.opening .code
  starts : ∃ c, opening.head? = some c ∧ Text.isWord c = true
  ends : opening.getLast? = some '\x7b'
  behind : mask .code tail = site.tail

theorem isSolid_of_isWord (c : Char) (word : Text.isWord c = true) : isSolid c = true := by
  have other (d : Char) (apart : Text.isWord d = false) : c ≠ d := by
    rintro rfl
    rw [word] at apart
    cases apart
  simp [isSolid, isQuote, other ' ' rfl, other '\n' rfl, other '#' rfl, other '[' rfl, other '\x22' rfl,
    other '\x27' rfl]

theorem mask_of_site (source className : Text) (site : Site) (known : site? source className = some site) :
    mask .code source = site.declaration.lead ++ (site.opening ++ site.tail) := by
  obtain ⟨found, _, opened⟩ := (site_eq_some_iff source className site).mp known
  obtain ⟨passed, before, _, whole, _⟩ := findDeclaration_similar _ [] [] 0 _ ⟨rfl, rfl⟩ _ found
  rw [whole, Text.splitFirst_append _ _ _ _ opened, Declaration.lead, before, Declaration.text, Site.opening]
  simp only [List.reverse_nil, List.nil_append, List.append_assoc]

theorem cut_of_site (source className : Text) (site : Site) (known : site? source className = some site) :
    ∃ lead opening tail, site.Cut source lead opening tail := by
  obtain ⟨found, _, opened⟩ := (site_eq_some_iff source className site).mp known
  obtain ⟨_, _, rest, attempt⟩ := findDeclaration_spec _ _ _ _ _ found
  obtain ⟨c, keyword, starts, word⟩ := (declarationAt_parts rest _ attempt).keyword
  have shape : site.opening =
      [c] ++ (keyword ++ (site.declaration.gap ++ (site.declaration.name ++ site.head))) ++ ['\x7b'] := by
    change site.declaration.keyword = c :: keyword at starts
    rw [Site.opening, starts]
    simp only [List.append_assoc, List.cons_append, List.nil_append]
  generalize keyword ++ (site.declaration.gap ++ (site.declaration.name ++ site.head)) = middle at shape
  have masked := mask_of_site source className site known
  rw [shape, List.append_assoc, List.append_assoc] at masked
  -- The keyword and the brace are seen through the mask, so the source can be cut at both.
  obtain ⟨lead, later, whole, front, maskLater⟩ :=
    reads_of_solid .code True.intro source _ _ c (isSolid_of_isWord c word) masked
  obtain ⟨inner, tail, rest, reads, maskTail⟩ :=
    reads_of_solid .code True.intro later _ _ '\x7b' rfl maskLater
  have letter := reads_inert [c] later fun d member => by
    rw [List.mem_singleton.mp member]
    exact isInert_of_isWord c word
  have brace := reads_inert ['\x7b'] tail (Text.forall_of_all (by decide))
  refine ⟨lead, [c] ++ inner ++ ['\x7b'], tail, ?_, ?_, ?_, ⟨c, rfl, word⟩, List.getLast?_concat, maskTail⟩
  · rw [whole, rest]
    simp only [List.append_assoc, List.cons_append, List.nil_append]
  · rw [rest] at front
    simpa only [List.append_assoc, List.cons_append, List.nil_append] using front
  · rw [shape]
    rw [rest] at letter
    exact (letter.append reads).append brace

namespace Site.Cut

variable {site : Site} {source lead opening tail : Text}

theorem byteLength_lead (cut : site.Cut source lead opening tail) : Text.byteLength lead = site.keywordOffset :=
  cut.front.byteLength_shown.symm

theorem byteLength_opened (cut : site.Cut source lead opening tail) :
    Text.byteLength (lead ++ opening) = site.bodyOffset :=
  (cut.front.append cut.opened).byteLength_shown.symm

theorem eq_of_byteLength (cut : site.Cut source lead opening tail) (front behind : Text)
    (whole : source = front ++ behind) (place : Text.byteLength front = site.bodyOffset) :
    front = lead ++ opening ∧ behind = tail := by
  rw [cut.whole, ← List.append_assoc] at whole
  exact Text.append_inj_of_byteLength _ _ _ _ whole.symm (place.trans cut.byteLength_opened.symm)

end Site.Cut

/-- Comments that end behind a keyword are not attached to it. -/
theorem attachedComment_append (comments later : List DocComment) (lead : Text)
    (behind : ∀ comment ∈ later, Text.byteLength lead < comment.stop) :
    attachedComment? (comments ++ later) lead = attachedComment? comments lead := by
  have unfound : later.reverse.find? (fun comment => comment.stop ≤ Text.byteLength lead) = none := by
    rw [List.find?_eq_none]
    intro comment member
    have far := behind comment (List.mem_reverse.mp member)
    simp only [decide_eq_true_eq]
    omega
  unfold attachedComment?
  rw [List.reverse_append, List.find?_append, unfound, Option.none_or]

theorem attachedComment_concat (comments : List DocComment) (comment : DocComment) (lead : Text)
    (within : comment.stop ≤ Text.byteLength lead) :
    attachedComment? (comments ++ [comment]) lead =
      if isTransparent (.letters 0) (Text.dropBytes comment.stop lead) then some comment else none := by
  unfold attachedComment?
  rw [List.reverse_append, List.find?_append]
  simp [within]

theorem Site.Cut.docComment_eq {site : Site} {source lead opening tail : Text}
    (cut : site.Cut source lead opening tail) :
    site.docComment source = attachedComment? (docComments 0 .code lead) site.declaration.lead := by
  unfold Site.docComment
  rw [cut.whole, cut.front.docComments_append 0]
  apply attachedComment_append
  intro comment member
  obtain ⟨start, stop⟩ := start_of_mem_docComments _ .code True.intro _ comment member
  rw [cut.front.byteLength_shown]
  omega

def Site.withTail (site : Site) (tail : Text) : Site :=
  { site with declaration := { site.declaration with after := site.head ++ '\x7b' :: tail }, tail }

theorem Site.Cut.exchange {site : Site} {source lead opening tail : Text} (cut : site.Cut source lead opening tail)
    (other : Text) :
    (site.withTail (mask .code other)).Cut (lead ++ (opening ++ other)) lead opening other where
  whole := rfl
  front := by
    obtain ⟨c, starts, _⟩ := cut.starts
    refine cut.front.swap _ ?_
    rw [List.head?_append, List.head?_append, starts]
    rfl
  opened := cut.opened.followed other fun slash => by
    rw [cut.ends] at slash
    cases slash
  starts := cut.starts
  ends := cut.ends
  behind := rfl

theorem Site.Cut.mask_eq {site : Site} {source lead opening tail : Text} (cut : site.Cut source lead opening tail) :
    mask .code source = site.declaration.lead ++ (site.opening ++ site.tail) := by
  rw [cut.whole, cut.front.mask_eq, cut.opened.mask_eq, cut.behind]

/-- A class is found at its place whatever follows its opening brace. -/
theorem site_of_mask (source other className : Text) (site : Site) (known : site? source className = some site)
    (tail : Text) (masked : mask .code other = site.declaration.lead ++ (site.opening ++ tail)) :
    site? other className = some (site.withTail tail) := by
  obtain ⟨found, scope, opened⟩ := (site_eq_some_iff source className site).mp known
  have split := Text.splitFirst_append _ _ _ _ opened
  have noBrace : '\x7b' ∉ site.head := by
    rw [split, List.append_assoc] at opened
    exact (Text.splitFirst_char '\x7b' site.head site.tail).mp opened
  have ends : (site.declaration.lead ++ site.opening).getLast? = some '\x7b' := by
    rw [Site.opening, ← List.append_assoc, List.getLast?_concat]
  rw [mask_of_site source className site known, ← List.append_assoc] at found
  obtain ⟨rest, after, moved⟩ := findDeclaration_exchange _ _ site.tail tail
    (fun last is => by rw [ends] at is; cases is; rfl) site.declaration found (by
      simp only [Site.opening, Declaration.lead, List.length_append, List.length_cons]
      omega)
  rw [split] at after
  have same := List.append_cancel_right after
  rw [← same, List.append_assoc site.head] at moved
  refine (site_eq_some_iff _ _ _).mpr ⟨?_, scope, (Text.splitFirst_char _ _ _).mpr noBrace⟩
  rw [masked, ← List.append_assoc]
  exact moved

theorem site_exchange (source className : Text) (site : Site) (known : site? source className = some site)
    {lead opening tail : Text} (cut : site.Cut source lead opening tail) (other : Text) :
    site? (lead ++ (opening ++ other)) className = some (site.withTail (mask .code other)) :=
  site_of_mask source _ className site known _ (cut.exchange other).mask_eq

theorem docComment_withTail {site : Site} {source lead opening tail : Text} (cut : site.Cut source lead opening tail)
    (other : Text) :
    (site.withTail (mask .code other)).docComment (lead ++ (opening ++ other)) = site.docComment source := by
  rw [(cut.exchange other).docComment_eq, cut.docComment_eq]
  rfl

end MemberDoc.Source
