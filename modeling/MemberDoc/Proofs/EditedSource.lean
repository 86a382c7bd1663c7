import MemberDoc.Proofs.BlockPlacement
import MemberDoc.Proofs.MemberCode

set_option autoImplicit false

/-! The source that an edit leaves behind. Where the places of an edit are those of the class, the class is
found again with the new block as its doc comment, and it declares what it declared and the inserted
members besides. -/

namespace MemberDoc.Source

private theorem Site.Cut.closing {site : Site} {source lead opening tail : Text}
    (cut : site.Cut source lead opening tail) (front rest : Text)
    (last : Text.splitLast? '\x7d' source = some (front, rest)) (place : Text.byteLength front = site.closeOffset) :
    ∃ inner, tail = inner ++ '\x7d' :: rest ∧ Reads .code inner ('\x7d' :: rest) site.body .code ∧ '\x7d' ∉ rest ∧
      braceDepth? 0 site.body = some 0 := by
  obtain ⟨whole, noBrace⟩ := Text.splitLast_append _ _ _ _ last
  have size : Text.byteLength tail = Text.byteLength site.tail := by rw [← cut.behind, byteLength_mask]
  have total := congrArg Text.byteLength whole
  rw [cut.whole, ← List.append_assoc, Text.byteLength_append, cut.byteLength_opened, size, Text.byteLength_append,
    place, Site.closeOffset] at total
  rcases bodyOf_split 0 site.tail with unclosed | ⟨more, split, closed⟩
  · -- An unclosed body reaches to the end, where no brace can follow.
    have positive := Text.byteLength_pos '\x7d' rest
    have same : Text.byteLength site.body = Text.byteLength site.tail := by rw [Site.body, ← unclosed]
    omega
  · change site.tail = site.body ++ '\x7d' :: more at split
    obtain ⟨inner, behind, tailSplit, reads, _⟩ :=
      reads_of_solid .code True.intro tail site.body more '\x7d' rfl (by rw [cut.behind, split])
    have same : front ++ '\x7d' :: rest = (lead ++ opening ++ inner) ++ '\x7d' :: behind := by
      rw [← whole, cut.whole, tailSplit]
      simp only [List.append_assoc]
    obtain ⟨_, ends⟩ := Text.append_inj_of_byteLength _ _ _ _ same (by
      rw [place, Site.closeOffset, Text.byteLength_append, cut.byteLength_opened, reads.byteLength_shown])
    obtain ⟨_, rfl⟩ := List.cons.inj ends
    exact ⟨inner, tailSplit, reads, noBrace, closed⟩

end MemberDoc.Source

namespace MemberDoc.Insertion

open Source

def inserted (members : List Text) : Text :=
  if members = [] then [] else memberBlock members

@[simp] theorem inserted_nil : inserted [] = [] := rfl

@[simp] theorem inserted_cons (member : Text) (members : List Text) :
    inserted (member :: members) = memberBlock (member :: members) :=
  if_neg (List.cons_ne_nil member members)

theorem reads_inserted {Member : Type} (members : List Member) (code : Member → Text)
    (declares : Member → MemberName → Prop)
    (reads : ∀ member ∈ members, ∀ rest, ∃ shown, Reads .code (code member) rest shown .code ∧
      Contributes shown (declares member)) (rest : Text) :
    Reads .code (inserted (members.map code)) rest (inserted ((members.map code).map (mask .code))) .code ∧
      Contributes (inserted ((members.map code).map (mask .code))) fun name =>
        ∃ member ∈ members, declares member name := by
  have own (member : Member) (inside : member ∈ members) :
      (∀ rest, Reads .code (code member) rest (mask .code (code member)) .code) ∧
        Contributes (mask .code (code member)) (declares member) := by
    constructor
    · intro rest
      obtain ⟨shown, known, _⟩ := reads member inside rest
      rw [← known.shown_eq]
      exact known
    · obtain ⟨shown, known, contributes⟩ := reads member inside []
      rw [← known.shown_eq]
      exact contributes
  cases members with
  | nil => exact ⟨.done .code rest, (contributes_blank [] (by simp)).congr fun name => by simp⟩
  | cons member members =>
      have block := reads_memberBlock ((member :: members).map code) (fun text inside => by
        obtain ⟨other, present, rfl⟩ := List.mem_map.mp inside
        exact (own other present).1) rest
      have contributes := contributes_memberBlock (member :: members) (fun other => mask .code (code other)) declares
        fun other inside => (own other inside).2
      have masked : ((member :: members).map code).map (mask .code) =
          (member :: members).map fun other => mask .code (code other) := List.map_map
      rw [← masked] at contributes
      rw [List.map_cons, List.map_cons, inserted_cons, inserted_cons]
      exact ⟨block, contributes⟩

theorem insertProperties_eq (source lead tail : Text) (members : List Text) (whole : source = lead ++ tail)
    (place : members ≠ [] → splitBodyOpen? source = some (lead, tail)) :
    insertProperties source members = lead ++ (inserted members ++ tail) := by
  unfold insertProperties
  cases members with
  | nil => exact whole
  | cons member members =>
      rw [if_neg (List.cons_ne_nil _ _), place (List.cons_ne_nil _ _), inserted_cons]
      exact List.append_assoc lead _ tail

theorem splitClassHead_append (text lead tail : Text) (found : splitClassHead? text = some (lead, tail)) :
    text = lead ++ tail := by
  induction text generalizing lead with
  | nil => cases found
  | cons c text ih =>
      rw [splitClassHead?] at found
      split at found
      · cases found
        rfl
      · obtain ⟨⟨before, after⟩, known, same⟩ := Option.map_eq_some_iff.mp found
        cases same
        rw [ih before known, List.cons_append]

theorem splitBodyOpen_append (source lead tail : Text) (found : splitBodyOpen? source = some (lead, tail)) :
    source = lead ++ tail := by
  unfold splitBodyOpen? at found
  obtain ⟨⟨before, rest⟩, tag, found⟩ := Option.bind_eq_some_iff.mp found
  obtain ⟨⟨middle, rest⟩, head, found⟩ := Option.bind_eq_some_iff.mp found
  obtain ⟨⟨opening, rest⟩, brace, found⟩ := Option.bind_eq_some_iff.mp found
  cases found
  rw [Text.splitFirst_append _ _ _ _ tag, splitClassHead_append _ _ _ head, Text.splitFirst_append _ _ _ _ brace]
  simp only [List.append_assoc]

theorem insertMethods_eq (source lead tail : Text) (members : List Text) (whole : source = lead ++ '\x7d' :: tail)
    (last : '\x7d' ∉ tail) : insertMethods source members = lead ++ (inserted members ++ '\x7d' :: tail) := by
  unfold insertMethods
  cases members with
  | nil => exact whole
  | cons member members =>
      rw [if_neg (List.cons_ne_nil _ _), whole, Text.splitLast_of_last _ _ _ last, inserted_cons]
      simp only [List.append_assoc, List.cons_append, List.nil_append]

theorem reads_insertedProperties (members : List DeclaredProperty) (plain : ∀ member ∈ members, member.IsPlain)
    (rest : Text) :
    Reads .code (inserted (members.map DeclaredProperty.code)) rest
        (inserted ((members.map DeclaredProperty.code).map (mask .code))) .code ∧
      Contributes (inserted ((members.map DeclaredProperty.code).map (mask .code))) fun name =>
        ∃ member ∈ members, member.Declares name := by
  refine reads_inserted members DeclaredProperty.code DeclaredProperty.Declares (fun member inside more => ?_) rest
  obtain ⟨shown, reads, contributes, _⟩ := member.reads_code (plain member inside) more
  exact ⟨shown, reads, contributes⟩

theorem reads_insertedMethods (members : List DeclaredMethod) (plain : ∀ member ∈ members, member.IsPlain)
    (rest : Text) :
    Reads .code (inserted (members.map DeclaredMethod.code)) rest
        (inserted ((members.map DeclaredMethod.code).map (mask .code))) .code ∧
      Contributes (inserted ((members.map DeclaredMethod.code).map (mask .code))) fun name =>
        ∃ member ∈ members, member.Declares name :=
  reads_inserted members DeclaredMethod.code DeclaredMethod.Declares
    (fun member inside more => member.reads_code (plain member inside) more) rest

private theorem has_insertedProperties (members : List DeclaredProperty) (plain : ∀ member ∈ members, member.IsPlain)
    (tail : Text) (name : MemberName) :
    (memberNames (bodyOf 0 (mask .code (inserted (members.map DeclaredProperty.code) ++ tail)))).Has name ↔
      (∃ member ∈ members, member.Declares name) ∨ (memberNames (bodyOf 0 (mask .code tail))).Has name := by
  obtain ⟨reads, contributes⟩ := reads_insertedProperties members plain tail
  rw [reads.mask_eq, (contributes.grows _).has, or_comm]

/-- Inserted members do not make a comment of a slash before them. -/
theorem head_inserted (members : List Text) (rest : Text) :
    (inserted members ++ '\x7d' :: rest).head? ≠ some '*' ∧ (inserted members ++ '\x7d' :: rest).head? ≠ some '/' := by
  cases members with
  | nil => simp
  | cons member members => simp [memberBlock]

private theorem has_insertedMethods (members : List DeclaredMethod) (plain : ∀ member ∈ members, member.IsPlain)
    (inner rest body : Text) (reads : Reads .code inner ('\x7d' :: rest) body .code) (complete : IsComplete body)
    (name : MemberName) :
    (memberNames (bodyOf 0 (mask .code
        (inner ++ (inserted (members.map DeclaredMethod.code) ++ '\x7d' :: rest))))).Has name ↔
      (memberNames body).Has name ∨ ∃ member ∈ members, member.Declares name := by
  obtain ⟨later, contributes⟩ := reads_insertedMethods members plain ('\x7d' :: rest)
  have before := reads.followed (inserted (members.map DeclaredMethod.code) ++ '\x7d' :: rest) fun _ =>
    head_inserted _ rest
  have brace : mask .code ('\x7d' :: rest) = '\x7d' :: mask .code rest :=
    (reads_inert ['\x7d'] rest (Text.forall_of_all (by decide))).mask_eq
  rw [before.mask_eq, later.mask_eq, brace, (contributes.grows_before_brace complete _).has,
    bodyOf_before_brace body _ complete.closed]

/-- The place of a block: where the doc comment of the class stands, or where the class does. -/
def BlockPlace (source shortName : Text) (site : Site) : Prop :=
  match site.docComment source with
  | some comment =>
      ∃ lead tail, Text.splitFirst? comment.text source = some (lead, tail) ∧ Text.byteLength lead = comment.start
  | none =>
      ∃ lead tail, Text.splitFirst? ("class ".toList ++ shortName) source = some (lead, tail) ∧
        Text.byteLength lead = site.keywordOffset ∧ lead.getLast? ≠ some '/'

/-- What a block is placed at: the old block, or the first class with the name. -/
def blockMark (old : Option Text) (shortName : Text) : Text :=
  old.getD ("class ".toList ++ shortName)

theorem placeBlock_missing (source shortName : Text) (old : Option Text)
    (absent : Text.splitFirst? (blockMark old shortName) source = none) (block : Text) :
    placeBlock source old block shortName = source := by
  unfold placeBlock
  cases old with
  | some text =>
      change Text.replaceFirst text block source = source
      unfold Text.replaceFirst
      rw [show Text.splitFirst? text source = none from absent]
  | none =>
      dsimp only
      rw [show Text.splitFirst? ("class ".toList ++ shortName) source = none from absent]

/-- A block that is placed behind a text stands before a class: it takes the place of the doc comment of the
class, or it stands before the keyword. -/
def StandsBefore (source : Text) (old : Option Text) (front : Text) (site : Site) : Prop :=
  match old with
  | some text => site.docComment source = some ⟨Text.byteLength front, text⟩
  | none => Text.byteLength front = site.keywordOffset ∧ front.getLast? ≠ some '/'

private theorem BlockPlace.standsBefore {source shortName : Text} {site : Site}
    (place : BlockPlace source shortName site) :
    ∃ front rest, Text.splitFirst? (blockMark ((site.docComment source).map (·.text)) shortName) source =
        some (front, rest) ∧
      StandsBefore source ((site.docComment source).map (·.text)) front site := by
  unfold BlockPlace at place
  unfold StandsBefore
  cases attached : site.docComment source with
  | some comment =>
      rw [attached] at place
      obtain ⟨front, rest, found, start⟩ := place
      refine ⟨front, rest, found, ?_⟩
      rw [start]
      rfl
  | none =>
      rw [attached] at place
      obtain ⟨front, rest, found, stands⟩ := place
      exact ⟨front, rest, found, stands⟩

/-- A block takes the place of a doc comment, or stands on a line of its own before a class. -/
theorem placeBlock_cases (source shortName : Text) (old : Option Text) (site : Site) (front rest : Text)
    (found : Text.splitFirst? (blockMark old shortName) source = some (front, rest))
    (stands : StandsBefore source old front site)
    {lead opening tail : Text} (cut : site.Cut source lead opening tail) (block : Text) :
    (∃ comment behind, old = some comment ∧ site.Framed source front comment behind opening tail ∧
      placeBlock source old block shortName = front ++ (block ++ behind) ++ (opening ++ tail)) ∨
    (old = none ∧ front = lead ∧ lead.getLast? ≠ some '/' ∧
      placeBlock source old block shortName = lead ++ (block ++ ['\n']) ++ (opening ++ tail)) := by
  have whole := Text.splitFirst_append _ _ _ _ found
  cases old with
  | some text =>
      obtain ⟨before, behind, leadSplit, size, framed⟩ := cut.framed _ stands
      have same : front ++ (text ++ rest) = before ++ (text ++ (behind ++ (opening ++ tail))) := by
        rw [← List.append_assoc, ← show source = front ++ text ++ rest from whole, cut.whole, leadSplit]
        simp only [List.append_assoc]
      obtain ⟨rfl, later⟩ := Text.append_inj_of_byteLength _ _ _ _ same size.symm
      have restEq := List.append_cancel_left later
      refine .inl ⟨text, behind, rfl, framed, ?_⟩
      rw [placeBlock_first source text front rest found, restEq]
      simp only [List.append_assoc]
  | none =>
      obtain ⟨start, apart⟩ := stands
      have same : front ++ ("class ".toList ++ shortName ++ rest) = lead ++ (opening ++ tail) := by
        rw [← cut.whole, ← List.append_assoc]
        exact whole.symm
      obtain ⟨rfl, later⟩ := Text.append_inj_of_byteLength _ _ _ _ same (start.trans cut.byteLength_lead.symm)
      refine .inr ⟨rfl, rfl, apart, ?_⟩
      rw [placeBlock_before source shortName front rest found, later, List.append_assoc front]

private theorem site_of_placeBlock (source className shortName : Text) (site : Site)
    (known : site? source className = some site) (place : BlockPlace source shortName site)
    {lead opening tail : Text} (cut : site.Cut source lead opening tail) (block : Text) (isComment : IsComment block) :
    ∃ new front comment, site? (placeBlock source ((site.docComment source).map (·.text)) block shortName) className =
        some new ∧ site.Agrees new ∧
      new.Cut (placeBlock source ((site.docComment source).map (·.text)) block shortName) front opening tail ∧
      new.docComment (placeBlock source ((site.docComment source).map (·.text)) block shortName) = some comment ∧
      comment.text = block := by
  obtain ⟨front, rest, found, stands⟩ := place.standsBefore
  rcases placeBlock_cases source shortName _ site front rest found stands cut block with
    ⟨comment, behind, _, framed, placed⟩ | ⟨_, _, apart, placed⟩
  · obtain ⟨new, found, agrees, newFrame⟩ := site_recommented source className site known framed block isComment
    rw [placed]
    exact ⟨new, _, _, found, agrees, newFrame.cut, newFrame.docComment_eq, rfl⟩
  · obtain ⟨new, found, agrees, newFrame⟩ := site_commented source className site known cut apart block isComment
    rw [placed]
    exact ⟨new, _, _, found, agrees, newFrame.cut, newFrame.docComment_eq, rfl⟩

structure Places (className : Text) (snapshot : Snapshot) (registry : Registry) (block : Text) (site : Site) : Prop where
  comment : BlockPlace snapshot.source snapshot.shortName site
  properties : missingProperties snapshot registry ≠ [] → ∃ lead tail placed,
    splitBodyOpen? (placeBlock snapshot.source snapshot.docComment block snapshot.shortName) = some (lead, tail) ∧
      site? (placeBlock snapshot.source snapshot.docComment block snapshot.shortName) className = some placed ∧
      Text.byteLength lead = placed.bodyOffset
  methods : missingMethods snapshot registry ≠ [] → ∃ lead tail,
    Text.splitLast? '\x7d' snapshot.source = some (lead, tail) ∧ Text.byteLength lead = site.closeOffset ∧
      (Text.trim site.body = [] ∨ Text.endsWith [';'] (Text.trim site.body) = true ∨
        Text.endsWith ['\x7d'] (Text.trim site.body) = true)

def Adds (snapshot : Snapshot) (registry : Registry) (name : MemberName) : Prop :=
  (∃ property ∈ missingProperties snapshot registry, property.Declares name) ∨
    ∃ method ∈ missingMethods snapshot registry, method.Declares name

/-- What methods inserted before the last brace of a source make of the text behind the opening brace. -/
theorem exists_methodsTail (snapshot : Snapshot) (registry : Registry) (className block : Text) (site : Site)
    (places : Places className snapshot registry block site)
    (plain : ∀ method ∈ missingMethods snapshot registry, method.IsPlain)
    {lead opening tail : Text} (cut : site.Cut snapshot.source lead opening tail) :
    ∃ other, (∀ front, insertMethods (front ++ tail) ((missingMethods snapshot registry).map DeclaredMethod.code) =
        front ++ other) ∧
      ∀ name, (memberNames (bodyOf 0 (mask .code other))).Has name ↔
        (memberNames site.body).Has name ∨ ∃ method ∈ missingMethods snapshot registry, method.Declares name := by
  by_cases nothing : missingMethods snapshot registry = []
  · refine ⟨tail, fun front => by rw [nothing]; rfl, fun name => ?_⟩
    rw [cut.behind, nothing]
    simp [Site.body]
  · obtain ⟨front, rest, last, place, finished⟩ := places.methods nothing
    obtain ⟨inner, split, reads, noBrace, closed⟩ := cut.closing front rest last place
    refine ⟨inner ++ (inserted ((missingMethods snapshot registry).map DeclaredMethod.code) ++ '\x7d' :: rest),
      fun front => ?_, fun name => ?_⟩
    · rw [insertMethods_eq _ (front ++ inner) rest _ (by rw [split, List.append_assoc]) noBrace, List.append_assoc]
    · exact has_insertedMethods _ plain inner rest site.body reads (isComplete_of_trim site.body closed finished) name

/-- After an edit the class carries the block and declares the inserted members besides its own. -/
theorem site_of_edit (className : Text) (snapshot : Snapshot) (registry : Registry) (block : Text) (site : Site)
    (known : site? snapshot.source className = some site)
    (comment : snapshot.docComment = (site.docComment snapshot.source).map (·.text))
    (places : Places className snapshot registry block site) (isComment : IsComment block)
    (properties : ∀ property ∈ missingProperties snapshot registry, property.IsPlain)
    (methods : ∀ method ∈ missingMethods snapshot registry, method.IsPlain) :
    ∃ new, site? (edit snapshot registry block) className = some new ∧ new.parent = site.parent ∧
      new.declaration.kind = site.declaration.kind ∧
      (site.declaration.isAbstract = false → new.declaration.isAbstract = false) ∧
      (new.docComment (edit snapshot registry block)).map (·.text) = some block ∧
      ∀ name, (memberNames new.body).Has name ↔ (memberNames site.body).Has name ∨ Adds snapshot registry name := by
  obtain ⟨lead, opening, tail, cut⟩ := cut_of_site _ _ _ known
  obtain ⟨placed, front, placedComment, found, agrees, placedCut, attached, same⟩ :=
    site_of_placeBlock _ _ _ site known places.comment cut block isComment
  have propertiesPlace := places.properties
  rw [comment] at propertiesPlace
  obtain ⟨other, withMethods, methodNames⟩ := exists_methodsTail snapshot registry className block site places methods cut
  have edited : edit snapshot registry block =
      front ++ (opening ++ (inserted ((missingProperties snapshot registry).map DeclaredProperty.code) ++ other)) := by
    unfold edit
    dsimp only
    rw [comment, insertProperties_eq _ (front ++ opening) tail _ (by rw [placedCut.whole, List.append_assoc]),
      ← List.append_assoc, withMethods]
    · simp only [List.append_assoc]
    · intro lacking
      obtain ⟨before, after, again, split, site, offset⟩ := propertiesPlace (by
        intro nothing
        rw [nothing] at lacking
        exact lacking rfl)
      rw [found, Option.some.injEq] at site
      subst site
      obtain ⟨rfl, rfl⟩ := placedCut.eq_of_byteLength before after (splitBodyOpen_append _ _ _ split) offset
      exact split
  rw [edited]
  refine ⟨_, site_exchange _ _ placed found placedCut _, agrees.parent, agrees.kind, agrees.concrete, ?_, fun name => ?_⟩
  · rw [docComment_withTail placedCut, attached, Option.map_some, same]
  · change (memberNames (bodyOf 0 (mask .code _))).Has name ↔ _
    rw [has_insertedProperties _ properties, methodNames]
    unfold Adds
    constructor
    · rintro (added | own | added)
      · exact .inr (.inl added)
      · exact .inl own
      · exact .inr (.inr added)
    · rintro (own | added | added)
      · exact .inr (.inl own)
      · exact .inl added
      · exact .inr (.inr added)

end MemberDoc.Insertion
