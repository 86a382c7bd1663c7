import MemberDoc.Proofs.BesideClass
import MemberDoc.Proofs.EditedSource

set_option autoImplicit false

/-! Where declared members land in a document with several classes. Properties go to the class that the first
class brace opens and methods to the class that the last brace closes; every other class keeps its members. -/

namespace MemberDoc.Source

def Outline.members (outline : Outline) : MemberNames :=
  ⟨outline.properties, outline.methods⟩

theorem cut_cases (left right front behind : Text) (same : left ++ right = front ++ behind) :
    (∃ middle, middle ≠ [] ∧ front = left ++ middle ∧ right = middle ++ behind) ∨ (left = front ∧ right = behind) ∨
      ∃ middle, middle ≠ [] ∧ left = front ++ middle ∧ behind = middle ++ right := by
  rcases List.append_eq_append_iff.mp same with ⟨middle, rfl, further⟩ | ⟨middle, rfl, further⟩
  · by_cases empty : middle = []
    · subst empty
      exact .inr (.inl ⟨(List.append_nil left).symm, further⟩)
    · exact .inl ⟨middle, empty, rfl, further⟩
  · by_cases empty : middle = []
    · subst empty
      exact .inr (.inl ⟨List.append_nil front, further.symm⟩)
    · exact .inr (.inr ⟨middle, empty, rfl, further⟩)

private theorem reads_of_getLast (text : Text) (c : Char) (solid : isSolid c = true)
    (ends : (mask .code text).getLast? = some c) :
    ∃ lead, text = lead ++ [c] ∧ ∀ rest, Reads .code lead (c :: rest) (mask .code lead) .code := by
  obtain ⟨shown, masked⟩ := List.getLast?_eq_some_iff.mp ends
  obtain ⟨lead, rest, whole, reads, nothing⟩ := reads_of_solid .code True.intro text shown [] c solid masked
  have empty : rest = [] := by
    cases rest with
    | nil => rfl
    | cons d rest =>
        have size := byteLength_mask (d :: rest)
        rw [nothing] at size
        exact absurd size (Nat.ne_of_lt (Text.byteLength_pos d rest))
  subst empty
  refine ⟨lead, whole, fun more => ?_⟩
  rw [← reads.shown_eq]
  exact reads.swap (c :: more) rfl

/-- What an insertion makes of a body: it declares the members if it takes them. -/
structure Receives {Member : Type} (tail other : Text) (takes : Prop) (members : List Member)
    (declares : Member → MemberName → Prop) : Prop where
  grows : Grows tail other fun name => takes ∧ ∃ member ∈ members, declares member name
  keeps : (takes → members = []) → KeepsBody tail other

theorem Receives.still {Member : Type} {takes : Prop} {members : List Member}
    {declares : Member → MemberName → Prop} (tail : Text) (nothing : takes → members = []) :
    Receives tail tail takes members declares where
  grows := .of_keepsBody (KeepsBody.refl tail) fun name => by
    rintro ⟨taken, member, listed, _⟩
    rw [nothing taken] at listed
    cases listed
  keeps := fun _ => .refl tail

theorem Receives.of_place {Member : Type} {tail other : Text} {takes place : Prop} {members : List Member}
    {declares : Member → MemberName → Prop} (same : takes ↔ place) (filled : members ≠ [])
    (alternatives : (place ∧ Grows tail other fun name => ∃ member ∈ members, declares member name) ∨
      (¬ place ∧ KeepsBody tail other)) : Receives tail other takes members declares := by
  rcases alternatives with ⟨here, grows⟩ | ⟨elsewhere, keeps⟩
  · have taken := same.mpr here
    refine ⟨⟨fun name => ?_, grows.closed, grows.complete⟩, fun nothing => absurd (nothing taken) filled⟩
    rw [grows.has, and_iff_right taken]
  · exact ⟨.of_keepsBody keeps fun name has => elsewhere (same.mp has.1), fun _ => keeps⟩

end MemberDoc.Source

namespace MemberDoc.Insertion

open Source

private theorem braceDepth_concat_space (text : Text) : braceDepth? 0 (text ++ [' ']) = braceDepth? 0 text := by
  rw [braceDepth_append]
  cases braceDepth? 0 text <;> rfl

private theorem site_placeBlock (source className shortName block : Text) (old : Option Text) (site : Site)
    (known : site? source className = some site) (isComment : IsComment block)
    (stands : ∀ cut ∈ Text.splitFirst? (blockMark old shortName) source,
      ∃ host anchor, site? source host = some anchor ∧ StandsBefore source old cut.1 anchor)
    (outside : ∀ cut ∈ Text.splitFirst? (blockMark old shortName) source,
      ∀ inner more, site.tail = inner ++ more → site.bodyOffset + Text.byteLength inner = Text.byteLength cut.1 →
        braceDepth? 0 inner ≠ some 0) :
    ∃ new, site? (placeBlock source old block shortName) className = some new ∧ KeepsBody site.tail new.tail := by
  cases found : Text.splitFirst? (blockMark old shortName) source with
  | none =>
      rw [placeBlock_missing source shortName old found]
      exact ⟨site, known, .refl _⟩
  | some parts =>
      obtain ⟨front, rest⟩ := parts
      obtain ⟨host, anchor, hosted, before⟩ := stands (front, rest) found
      obtain ⟨lead, opening, tail, cut⟩ := cut_of_site source host anchor hosted
      have masked := mask_of_site source className site known
      rw [← List.append_assoc] at masked
      have within (inner more : Text) (reach : mask .code front = site.declaration.lead ++ site.opening ++ inner)
          (whole : mask .code source = mask .code front ++ more) : braceDepth? 0 inner ≠ some 0 := by
        rw [whole, reach, List.append_assoc] at masked
        apply outside (front, rest) found inner more (List.append_cancel_left masked).symm
        rw [← byteLength_mask front, reach, Text.byteLength_append _ inner]
        rfl
      rcases placeBlock_cases source shortName old anchor front rest found before cut block with
        ⟨comment, behind, _, framed, placed⟩ | ⟨_, rfl, apart, placed⟩
      · obtain ⟨pad, padding, _, padded⟩ := framed.padded block isComment
        rw [placed]
        refine site_beside source _ host className anchor site hosted known padded fun inner reach => ?_
        -- The slash of the comment stands as a space at the end of what is before the pad.
        have whole := padded.masked
        rw [List.append_assoc] at whole
        rcases List.eq_nil_or_concat inner with empty | ⟨core, last, concat⟩
        · rw [empty, List.append_nil, Site.opening, ← List.append_assoc] at reach
          exact absurd (List.append_inj_right' reach rfl) (by decide)
        · rw [List.concat_eq_append] at concat
          rw [concat, ← List.append_assoc] at reach
          obtain ⟨reach, space⟩ := List.append_inj' reach rfl
          rw [concat, ← space, braceDepth_concat_space]
          exact within core _ reach whole
      · have padded := cut.padded hosted apart block isComment
        rw [placed]
        refine site_beside source _ host className anchor site hosted known padded fun inner reach => ?_
        have whole := padded.masked
        rw [cut.front.shown_eq] at reach whole
        exact within inner _ reach whole

/-- A text that neither declares a class nor sets a namespace. -/
def IsSilent (className text : Text) : Prop :=
  findDeclaration? (ClassName.short (ClassName.qualified className)) [] 0 (mask .code text) = none ∧
    findAtLines namespaceAt? 0 true (mask .code text) = []

instance (className text : Text) : Decidable (IsSilent className text) :=
  inferInstanceAs (Decidable (_ ∧ _))

private theorem passes_memberBlock (wanted : Text) (texts : List Text) (passes : ∀ text ∈ texts, Passes wanted text) :
    Passes wanted (memberBlock texts) := by
  have feed := passes_feed wanted
  have joined : Passes wanted (Text.joinWith ['\n', '\n'] texts) := by
    induction texts with
    | nil => exact passes_nil wanted
    | cons text texts ih =>
        have first := passes text List.mem_cons_self
        have others := ih fun other inside => passes other (List.mem_cons_of_mem text inside)
        cases texts with
        | nil =>
            simpa using first
        | cons next texts =>
            simpa using (first.append (feed.append feed)).append others
  exact (feed.append joined).append feed

private theorem passes_inserted (wanted : Text) (texts : List Text) (passes : ∀ text ∈ texts, Passes wanted text) :
    Passes wanted (inserted texts) := by
  cases texts with
  | nil => exact passes_nil wanted
  | cons text texts =>
      simpa using passes_memberBlock wanted (text :: texts) passes

private theorem passes_insertedProperties (className : Text) (members : List DeclaredProperty)
    (plain : ∀ member ∈ members, member.IsPlain) (silent : ∀ member ∈ members, IsSilent className member.code) :
    Passes (ClassName.short (ClassName.qualified className))
      (inserted ((members.map DeclaredProperty.code).map (mask .code))) := by
  apply passes_inserted
  intro text inside
  obtain ⟨code, present, rfl⟩ := List.mem_map.mp inside
  obtain ⟨property, listed, rfl⟩ := List.mem_map.mp present
  obtain ⟨shown, reads, _, ends⟩ := property.reads_code (plain property listed) []
  rw [reads.shown_eq] at ends
  exact passes_statement _ _ ends (silent property listed).1 (silent property listed).2

/-- A class is found again when properties are put behind a brace. It declares them if it is opened by that
brace, and keeps its members otherwise. -/
theorem site_insertProperties (source className : Text) (site : Site) (known : site? source className = some site)
    (members : List DeclaredProperty) (plain : ∀ member ∈ members, member.IsPlain)
    (silent : ∀ member ∈ members, IsSilent className member.code) (lead tail : Text) (whole : source = lead ++ tail)
    (brace : (mask .code lead).getLast? = some '\x7b') (unscoped : namespaceAt? (mask .code tail) = none) :
    ∃ new, site? (lead ++ (inserted (members.map DeclaredProperty.code) ++ tail)) className = some new ∧
      ((Text.byteLength lead = site.bodyOffset ∧
          Grows site.tail new.tail fun name => ∃ member ∈ members, member.Declares name) ∨
        (Text.byteLength lead ≠ site.bodyOffset ∧ KeepsBody site.tail new.tail)) := by
  obtain ⟨before, ended, reads⟩ := reads_of_getLast lead '\x7b' rfl brace
  have opened (rest : Text) : mask .code (lead ++ rest) = mask .code lead ++ mask .code rest := by
    have braced := (reads rest).append (reads_inert ['\x7b'] rest (Text.forall_of_all (by decide)))
    rw [ended, braced.mask_eq, braced.shown_eq]
  obtain ⟨shown, contributes⟩ := reads_insertedProperties members plain tail
  have passes := passes_insertedProperties className members plain silent
  have masked := opened tail
  have maskedOther := opened (inserted (members.map DeclaredProperty.code) ++ tail)
  rw [← whole] at masked
  rw [shown.mask_eq] at maskedOther
  generalize inserted ((members.map DeclaredProperty.code).map (mask .code)) = text at *
  have same := (mask_of_site source className site known).symm.trans masked
  rw [← List.append_assoc] at same
  have place : Text.byteLength lead = Text.byteLength (mask .code lead) := (byteLength_mask lead).symm
  rcases cut_cases _ _ _ _ same.symm with ⟨middle, filled, later, _⟩ | ⟨atBrace, behind⟩ | ⟨middle, filled, later, split⟩
  · have early : (mask .code lead).length < (site.declaration.lead ++ site.opening).length := by
      have positive := List.length_pos_iff.mpr filled
      rw [later, List.length_append]
      omega
    obtain ⟨new, found, tailSame⟩ := site_behind source _ className site known (mask .code lead) text (mask .code tail)
      masked maskedOther brace early unscoped passes
    have fewer := (Text.byteLength_lt_iff _ _ _ _ same.symm).mpr early
    rw [← place] at fewer
    exact ⟨new, found, .inr ⟨Nat.ne_of_lt fewer, by rw [tailSame]; exact .refl _⟩⟩
  · refine ⟨_, site_of_mask source _ className site known (text ++ site.tail) ?_, .inl ⟨?_, ?_⟩⟩
    · rw [maskedOther, atBrace, behind, List.append_assoc]
    · rw [place, atBrace]
      rfl
    · exact contributes.grows site.tail
  · refine ⟨_, site_of_mask source _ className site known (middle ++ (text ++ mask .code tail)) ?_, .inr ⟨?_, ?_⟩⟩
    · rw [maskedOther, later]
      simp only [List.append_assoc]
    · obtain ⟨c, rest, rfl⟩ := List.exists_cons_of_ne_nil filled
      have positive := Text.byteLength_pos c rest
      grind [Site.bodyOffset]
    · change KeepsBody site.tail (middle ++ (text ++ mask .code tail))
      rw [later, Text.getLast_suffix _ middle filled] at brace
      obtain ⟨front, rfl⟩ := List.getLast?_eq_some_iff.mp brace
      rw [split]
      exact keepsBody_insert _ text _ (braceDepth_opened front) contributes.complete.closed

/-- A class with a closed body is found again when methods are put before the last brace. It declares them if
that brace closes it, and keeps its members otherwise. -/
theorem site_insertMethods (source className : Text) (site : Site) (known : site? source className = some site)
    (members : List DeclaredMethod) (plain : ∀ member ∈ members, member.IsPlain) (lead tail : Text)
    (whole : source = lead ++ '\x7d' :: tail) (last : '\x7d' ∉ tail) (closed : site.body ≠ site.tail)
    (complete : Text.byteLength lead = site.closeOffset → IsComplete site.body) :
    ∃ new, site? (lead ++ (inserted (members.map DeclaredMethod.code) ++ '\x7d' :: tail)) className = some new ∧
      ((Text.byteLength lead = site.closeOffset ∧
          Grows site.tail new.tail fun name => ∃ member ∈ members, member.Declares name) ∨
        (Text.byteLength lead ≠ site.closeOffset ∧ KeepsBody site.tail new.tail)) := by
  obtain ⟨before, opening, text, cut⟩ := cut_of_site source className site known
  obtain ⟨more, split, balanced⟩ := exists_behind_body site.tail closed
  change site.tail = site.body ++ '\x7d' :: more at split
  obtain ⟨inner, behind, textSplit, reads, masked⟩ :=
    reads_of_solid .code True.intro text site.body more '\x7d' rfl (by rw [cut.behind, split])
  have braced (rest : Text) : mask .code ('\x7d' :: rest) = '\x7d' :: mask .code rest :=
    (reads_inert ['\x7d'] rest (Text.forall_of_all (by decide))).mask_eq
  have place : Text.byteLength (before ++ opening ++ inner) = site.closeOffset := by
    rw [Text.byteLength_append, cut.byteLength_opened, ← reads.byteLength_shown, Site.closeOffset]
  have same : lead ++ '\x7d' :: tail = before ++ opening ++ inner ++ '\x7d' :: behind := by
    rw [← whole, cut.whole, textSplit]
    simp only [List.append_assoc]
  have exchanged (other : Text) : site? (before ++ opening ++ inner ++ other) className =
      some (site.withTail (mask .code (inner ++ other))) := by
    rw [List.append_assoc, List.append_assoc]
    exact site_exchange source className site known cut (inner ++ other)
  rcases cut_cases _ _ _ _ same with ⟨middle, filled, _, further⟩ | ⟨rfl, rest⟩ | ⟨middle, filled, rfl, further⟩
  · -- The brace that closes the class would stand behind the last one.
    obtain ⟨c, core, rfl⟩ := List.exists_cons_of_ne_nil filled
    rw [(List.cons.inj further).2] at last
    exact absurd (List.mem_append_right core List.mem_cons_self) last
  · obtain ⟨_, rfl⟩ := List.cons.inj rest
    obtain ⟨shown, contributes⟩ := reads_insertedMethods members plain ('\x7d' :: tail)
    have front := reads.followed (inserted (members.map DeclaredMethod.code) ++ '\x7d' :: tail) fun _ =>
      head_inserted _ tail
    refine ⟨_, exchanged _, .inl ⟨place, ?_⟩⟩
    change Grows site.tail (mask .code _) _
    rw [split, front.mask_eq, shown.mask_eq, braced, masked]
    exact contributes.grows_before_brace (complete place) more
  · obtain ⟨c, core, rfl⟩ := List.exists_cons_of_ne_nil filled
    rw [List.cons_append] at further
    obtain ⟨rfl, rfl⟩ := List.cons.inj further
    rw [List.append_assoc _ ('\x7d' :: core), List.cons_append]
    refine ⟨_, exchanged _, .inr ⟨?_, ?_⟩⟩
    · have positive := Text.byteLength_pos '\x7d' core
      grind
    · change KeepsBody site.tail (mask .code _)
      have front := reads.swap
        ('\x7d' :: (core ++ (inserted (members.map DeclaredMethod.code) ++ '\x7d' :: tail))) rfl
      rw [split, front.mask_eq, braced]
      exact keepsBody_behind site.body more _ balanced

def withBlock (snapshot : Snapshot) (block : Text) : Text :=
  placeBlock snapshot.source snapshot.docComment block snapshot.shortName

def withProperties (snapshot : Snapshot) (registry : Registry) (block : Text) : Text :=
  insertProperties (withBlock snapshot block) ((missingProperties snapshot registry).map DeclaredProperty.code)

def TakesProperties (source className : Text) : Prop :=
  ∃ site ∈ site? source className, ∃ cut ∈ splitBodyOpen? source, Text.byteLength cut.1 = site.bodyOffset

def TakesMethods (source className : Text) : Prop :=
  ∃ site ∈ site? source className, ∃ cut ∈ Text.splitLast? '\x7d' source, Text.byteLength cut.1 = site.closeOffset

instance (source className : Text) : Decidable (TakesProperties source className) :=
  inferInstanceAs (Decidable (∃ site ∈ site? source className, ∃ cut ∈ splitBodyOpen? source, _))

instance (source className : Text) : Decidable (TakesMethods source className) :=
  inferInstanceAs (Decidable (∃ site ∈ site? source className, ∃ cut ∈ Text.splitLast? '\x7d' source, _))

/-- An edit that puts plain texts at places in code: the block before a class, properties behind a brace. -/
structure IsInCode (snapshot : Snapshot) (registry : Registry) (block : Text) : Prop where
  isComment : IsComment block
  stands : ∀ cut ∈ Text.splitFirst? (blockMark snapshot.docComment snapshot.shortName) snapshot.source,
    ∃ host anchor, site? snapshot.source host = some anchor ∧
      StandsBefore snapshot.source snapshot.docComment cut.1 anchor
  properties : ∀ property ∈ missingProperties snapshot registry, property.IsPlain
  opening : missingProperties snapshot registry ≠ [] → ∀ cut ∈ splitBodyOpen? (withBlock snapshot block),
    (mask .code cut.1).getLast? = some '\x7b' ∧ namespaceAt? (mask .code cut.2) = none
  methods : ∀ method ∈ missingMethods snapshot registry, method.IsPlain

/-- A class that an edit can go around: no block is put among its members, no property declares it again, and
a body that methods could be put into is closed and finished. -/
structure IsApart (snapshot : Snapshot) (registry : Registry) (block className : Text) (site : Site) : Prop where
  outside : ∀ cut ∈ Text.splitFirst? (blockMark snapshot.docComment snapshot.shortName) snapshot.source,
    ∀ inner more, site.tail = inner ++ more → site.bodyOffset + Text.byteLength inner = Text.byteLength cut.1 →
      braceDepth? 0 inner ≠ some 0
  silent : ∀ property ∈ missingProperties snapshot registry, IsSilent className property.code
  closed : missingMethods snapshot registry ≠ [] → site.body ≠ site.tail
  finished : missingMethods snapshot registry ≠ [] → TakesMethods (withProperties snapshot registry block) className →
    Text.trim site.body = [] ∨ Text.endsWith [';'] (Text.trim site.body) = true ∨
      Text.endsWith ['\x7d'] (Text.trim site.body) = true

variable {snapshot : Snapshot} {registry : Registry} {block className : Text}

private theorem site_withProperties (inCode : IsInCode snapshot registry block) (site : Site)
    (known : site? (withBlock snapshot block) className = some site)
    (silent : ∀ property ∈ missingProperties snapshot registry, IsSilent className property.code) :
    ∃ new, site? (withProperties snapshot registry block) className = some new ∧
      Receives site.tail new.tail (TakesProperties (withBlock snapshot block) className)
        (missingProperties snapshot registry) DeclaredProperty.Declares := by
  by_cases nothing : missingProperties snapshot registry = []
  · have same : withProperties snapshot registry block = withBlock snapshot block := by
      rw [withProperties, nothing]
      rfl
    rw [same]
    exact ⟨site, known, .still _ fun _ => nothing⟩
  cases found : splitBodyOpen? (withBlock snapshot block) with
  | none =>
      have same : withProperties snapshot registry block = withBlock snapshot block := by
        unfold withProperties insertProperties
        rw [found, ite_self]
      rw [same]
      refine ⟨site, known, .still _ ?_⟩
      rintro ⟨_, _, cut, split, _⟩
      rw [found] at split
      cases split
  | some parts =>
      obtain ⟨lead, tail⟩ := parts
      obtain ⟨brace, unscoped⟩ := inCode.opening nothing (lead, tail) found
      have whole := splitBodyOpen_append _ _ _ found
      obtain ⟨new, again, alternatives⟩ := site_insertProperties _ className site known _ inCode.properties silent lead
        tail whole brace unscoped
      rw [← insertProperties_eq _ lead tail _ whole fun _ => found] at again
      refine ⟨new, again, .of_place ?_ nothing alternatives⟩
      constructor
      · rintro ⟨other, located, cut, split, place⟩
        rw [known, Option.mem_some_iff] at located
        rw [found] at split
        cases split
        rw [place, located]
      · intro place
        exact ⟨site, known, (lead, tail), found, place⟩

private theorem site_edit (inCode : IsInCode snapshot registry block) (site : Site)
    (known : site? (withProperties snapshot registry block) className = some site)
    (closed : missingMethods snapshot registry ≠ [] → site.body ≠ site.tail)
    (complete : missingMethods snapshot registry ≠ [] →
      TakesMethods (withProperties snapshot registry block) className → IsComplete site.body) :
    ∃ new, site? (edit snapshot registry block) className = some new ∧
      Receives site.tail new.tail (TakesMethods (withProperties snapshot registry block) className)
        (missingMethods snapshot registry) DeclaredMethod.Declares := by
  have edited : edit snapshot registry block =
      insertMethods (withProperties snapshot registry block) ((missingMethods snapshot registry).map DeclaredMethod.code) :=
    rfl
  by_cases nothing : missingMethods snapshot registry = []
  · rw [edited, nothing]
    exact ⟨site, known, .still _ fun _ => rfl⟩
  cases found : Text.splitLast? '\x7d' (withProperties snapshot registry block) with
  | none =>
      have same : edit snapshot registry block = withProperties snapshot registry block := by
        rw [edited]
        unfold insertMethods
        rw [found, ite_self]
      rw [same]
      refine ⟨site, known, .still _ ?_⟩
      rintro ⟨_, _, cut, split, _⟩
      rw [found] at split
      cases split
  | some parts =>
      obtain ⟨lead, tail⟩ := parts
      obtain ⟨whole, last⟩ := Text.splitLast_append _ _ _ _ found
      have takes_iff : TakesMethods (withProperties snapshot registry block) className ↔
          Text.byteLength lead = site.closeOffset := by
        constructor
        · rintro ⟨other, located, cut, split, place⟩
          rw [known, Option.mem_some_iff] at located
          rw [found] at split
          cases split
          rw [place, located]
        · intro place
          exact ⟨site, known, (lead, tail), found, place⟩
      obtain ⟨new, again, alternatives⟩ := site_insertMethods _ className site known _ inCode.methods lead tail whole last
        (closed nothing) fun place => complete nothing (takes_iff.mpr place)
      rw [← insertMethods_eq _ lead tail _ whole last] at again
      exact ⟨new, again, .of_place takes_iff nothing alternatives⟩

/-- An edit puts the properties into the class that the first class brace opens and the methods into the class
that the last brace closes, whichever class they are for. Every class is found again, and one that takes
nothing has the members that it had. -/
theorem members_land_by_place (before : Site) (known : site? snapshot.source className = some before)
    (inCode : IsInCode snapshot registry block) (isApart : IsApart snapshot registry block className before) :
    ∃ after, Source.outline (edit snapshot registry block) className = .ok after ∧
      (∀ name, after.members.Has name ↔ (before.outline snapshot.source).members.Has name ∨
        (TakesProperties (withBlock snapshot block) className ∧
          ∃ property ∈ missingProperties snapshot registry, property.Declares name) ∨
        (TakesMethods (withProperties snapshot registry block) className ∧
          ∃ method ∈ missingMethods snapshot registry, method.Declares name)) ∧
      ((TakesProperties (withBlock snapshot block) className → missingProperties snapshot registry = []) →
        (TakesMethods (withProperties snapshot registry block) className → missingMethods snapshot registry = []) →
        after.members = (before.outline snapshot.source).members) := by
  obtain ⟨placed, found, kept⟩ := site_placeBlock snapshot.source className snapshot.shortName block
    snapshot.docComment before known inCode.isComment inCode.stands isApart.outside
  obtain ⟨widened, foundAgain, properties⟩ := site_withProperties inCode placed found isApart.silent
  have placedClosed (lacking : missingMethods snapshot registry ≠ []) : bodyOf 0 placed.tail ≠ placed.tail :=
    fun unclosed => isApart.closed lacking (kept.closed.mp unclosed)
  obtain ⟨after, located, methods⟩ := site_edit inCode widened foundAgain
    (fun lacking unclosed => placedClosed lacking (properties.grows.closed.mp unclosed))
    (fun lacking takes => by
      obtain ⟨_, _, balanced⟩ := exists_behind_body before.tail (isApart.closed lacking)
      have own := isComplete_of_trim before.body balanced (isApart.finished lacking takes)
      exact properties.grows.complete (placedClosed lacking) (kept.isComplete (isApart.closed lacking) own))
  refine ⟨after.outline _, (outline_eq_ok_iff _ _ _).mpr ⟨after, located, rfl⟩, fun name => ?_, fun first second => ?_⟩
  · change (memberNames (bodyOf 0 after.tail)).Has name ↔ (memberNames (bodyOf 0 before.tail)).Has name ∨ _
    rw [methods.grows.has, properties.grows.has, kept.memberNames_eq, or_assoc]
  · exact ((kept.trans (properties.keeps first)).trans (methods.keeps second)).memberNames_eq

def shopSource : Text :=
  "<?php\nclass Order\n\x7b\n\x7d\nclass Item\n\x7b\n\x7d\n".toList

def shopItem : Snapshot :=
  ⟨"\\Item".toList, true, [], [], none, shopSource, ⟨"/Shop.php".toList⟩⟩

def shopBlock : Text :=
  "/**\n * Class \\Item\n */".toList

def declaredPrice : DeclaredProperty :=
  ⟨"price".toList, none, none, false, [], .everyone⟩

def declaredTotal : DeclaredMethod :=
  ⟨"total".toList, false, [], none, [], .everyone, "return 1;".toList⟩

def shopRegistry : Registry :=
  ⟨[], [], [declaredPrice], [declaredTotal]⟩

def orderSite : Site :=
  ⟨⟨"<?php\n".toList, [], "class".toList, " ".toList, "Order".toList, "\n\x7b\n\x7d\nclass Item\n\x7b\n\x7d\n".toList⟩,
    "\n".toList, "\n\x7d\nclass Item\n\x7b\n\x7d\n".toList⟩

def itemSite : Site :=
  ⟨⟨"<?php\nclass Order\n\x7b\n\x7d\n".toList, [], "class".toList, " ".toList, "Item".toList, "\n\x7b\n\x7d\n".toList⟩,
    "\n".toList, "\n\x7d\n".toList⟩

theorem site_order : site? shopSource "Order".toList = some orderSite := by
  decide +kernel

theorem site_item : site? shopSource "Item".toList = some itemSite := by
  decide +kernel

theorem missingProperties_shop : missingProperties shopItem shopRegistry = [declaredPrice] := by
  decide +kernel

theorem missingMethods_shop : missingMethods shopItem shopRegistry = [declaredTotal] := by
  decide +kernel

theorem cut_shop (cut : Text × Text)
    (found : cut ∈ Text.splitFirst? (blockMark shopItem.docComment shopItem.shortName) shopItem.source) :
    cut.1 = "<?php\nclass Order\n\x7b\n\x7d\n".toList := by
  have known : Text.splitFirst? (blockMark shopItem.docComment shopItem.shortName) shopItem.source =
      some ("<?php\nclass Order\n\x7b\n\x7d\n".toList, "\n\x7b\n\x7d\n".toList) := by
    decide +kernel
  rw [known, Option.mem_some_iff] at found
  rw [← found]

private theorem isInCode_shop : IsInCode shopItem shopRegistry shopBlock where
  isComment := ⟨"\n * Class \\Item\n ".toList, by decide +kernel, by decide +kernel⟩
  stands cut found := by
    rw [cut_shop cut found]
    exact ⟨"Item".toList, itemSite, site_item, by decide +kernel, by decide +kernel⟩
  properties property listed := by
    rw [missingProperties_shop, List.mem_singleton] at listed
    rw [listed]
    exact ⟨by decide, by decide, by decide, fun _ known => (by cases known), fun _ known => (by cases known)⟩
  opening _ := by decide +kernel
  methods method listed := by
    rw [missingMethods_shop, List.mem_singleton] at listed
    rw [listed]
    exact ⟨by decide, by decide, by decide +kernel, fun _ known => (by cases known), by decide +kernel, by decide +kernel⟩

theorem isSilent_shop (className : Text) (silent : IsSilent className declaredPrice.code) :
    ∀ property ∈ missingProperties shopItem shopRegistry, IsSilent className property.code := by
  intro property listed
  rw [missingProperties_shop, List.mem_singleton] at listed
  rw [listed]
  exact silent

private theorem isApart_order : IsApart shopItem shopRegistry shopBlock "Order".toList orderSite where
  outside cut found inner more split place := by
    rw [cut_shop cut found] at place
    have whole : orderSite.tail = "\n\x7d\n".toList ++ "class Item\n\x7b\n\x7d\n".toList := by decide +kernel
    have size : orderSite.bodyOffset + Text.byteLength "\n\x7d\n".toList =
        Text.byteLength "<?php\nclass Order\n\x7b\n\x7d\n".toList := by decide +kernel
    obtain ⟨same, _⟩ := Text.append_inj_of_byteLength _ _ _ _ (split.symm.trans whole) (by omega)
    rw [same]
    decide +kernel
  silent := isSilent_shop _ (by decide +kernel)
  closed _ := by decide +kernel
  finished _ _ := .inl (by decide +kernel)

private theorem isApart_item : IsApart shopItem shopRegistry shopBlock "Item".toList itemSite where
  outside cut found inner more split place := by
    rw [cut_shop cut found] at place
    have late : Text.byteLength "<?php\nclass Order\n\x7b\n\x7d\n".toList < itemSite.bodyOffset := by decide +kernel
    omega
  silent := isSilent_shop _ (by decide +kernel)
  closed _ := by decide +kernel
  finished _ _ := .inl (by decide +kernel)

/-- Of the members for the item, the property lands in the order and only the method in the item. -/
theorem members_land_by_place_shop :
    IsInCode shopItem shopRegistry shopBlock ∧ IsApart shopItem shopRegistry shopBlock "Order".toList orderSite ∧
      IsApart shopItem shopRegistry shopBlock "Item".toList itemSite ∧
      (∃ after, Source.outline (edit shopItem shopRegistry shopBlock) "Order".toList = .ok after ∧
        after.members.Has (.property "price".toList) ∧ ¬ after.members.Has (.method "total".toList)) ∧
      ∃ after, Source.outline (edit shopItem shopRegistry shopBlock) "Item".toList = .ok after ∧
        ¬ after.members.Has (.property "price".toList) ∧ after.members.Has (.method "total".toList) := by
  obtain ⟨order, orderKnown, orderHas, _⟩ := members_land_by_place orderSite site_order isInCode_shop isApart_order
  obtain ⟨item, itemKnown, itemHas, _⟩ := members_land_by_place itemSite site_item isInCode_shop isApart_item
  have orderTakes : TakesProperties (withBlock shopItem shopBlock) "Order".toList ∧
      ¬ TakesMethods (withProperties shopItem shopRegistry shopBlock) "Order".toList := by
    decide +kernel
  have itemTakes : ¬ TakesProperties (withBlock shopItem shopBlock) "Item".toList ∧
      TakesMethods (withProperties shopItem shopRegistry shopBlock) "Item".toList := by
    decide +kernel
  have orderEmpty : (orderSite.outline shopItem.source).members = ⟨[], []⟩ := by decide +kernel
  have itemEmpty : (itemSite.outline shopItem.source).members = ⟨[], []⟩ := by decide +kernel
  have price : ∃ property ∈ missingProperties shopItem shopRegistry, property.Declares (.property "price".toList) := by
    rw [missingProperties_shop]
    exact ⟨declaredPrice, List.mem_singleton_self _, rfl⟩
  have total : ∃ method ∈ missingMethods shopItem shopRegistry, method.Declares (.method "total".toList) := by
    rw [missingMethods_shop]
    exact ⟨declaredTotal, List.mem_singleton_self _, rfl⟩
  refine ⟨isInCode_shop, isApart_order, isApart_item, ⟨order, orderKnown, ?_, ?_⟩, item, itemKnown, ?_, ?_⟩
  · exact (orderHas _).mpr (.inr (.inl ⟨orderTakes.1, price⟩))
  · rw [orderHas, orderEmpty]
    rintro (own | ⟨_, property, _, declares⟩ | ⟨takes, _⟩)
    · cases own
    · exact declares
    · exact orderTakes.2 takes
  · rw [itemHas, itemEmpty]
    rintro (own | ⟨takes, _⟩ | ⟨_, method, listed, declares⟩)
    · cases own
    · exact itemTakes.1 takes
    · rw [missingMethods_shop, List.mem_singleton] at listed
      rw [listed] at declares
      exact absurd declares (by decide +kernel : ¬ "price".toList ∈ declaredTotal.promoted)
  · exact (itemHas _).mpr (.inr (.inr ⟨itemTakes.2, total⟩))

def pricedSource : Text :=
  edit shopItem ⟨[], [], [declaredPrice], []⟩ shopBlock

def pricedOrder : Site :=
  (site? pricedSource "Order".toList).get (by decide +kernel)

def pricedItem : Site :=
  (site? pricedSource "Item".toList).get (by decide +kernel)

/-- A property that is pending for the item is declared by the order and not by the item. -/
theorem property_lands_in_first_class :
    Source.outline shopSource "Item".toList = .ok (itemSite.outline shopSource) ∧
      Source.outline shopSource "Order".toList = .ok (orderSite.outline shopSource) ∧
      (orderSite.outline shopSource).properties = [] ∧
      pricedSource = ("<?php\nclass Order\n\x7b\n    public $price;\n\n\x7d\n/**\n * Class \\Item\n */\nclass Item" ++
        "\n\x7b\n\x7d\n").toList ∧
      Source.outline pricedSource "Item".toList = .ok (pricedItem.outline pricedSource) ∧
      (pricedItem.outline pricedSource).properties = [] ∧
      Source.outline pricedSource "Order".toList = .ok (pricedOrder.outline pricedSource) ∧
      (pricedOrder.outline pricedSource).properties = ["price".toList] := by
  have scanned (source className : Text) (site : Site) (known : site? source className = some site) :
      Source.outline source className = .ok (site.outline source) :=
    (outline_eq_ok_iff source className _).mpr ⟨site, known, rfl⟩
  exact ⟨scanned _ _ _ site_item, scanned _ _ _ site_order, by decide +kernel, by decide +kernel,
    scanned _ _ _ (Option.some_get _).symm, by decide +kernel, scanned _ _ _ (Option.some_get _).symm, by decide +kernel⟩

end MemberDoc.Insertion
