import MemberDoc.ClassMap
import MemberDoc.Proofs.ClassBody
import MemberDoc.Proofs.ClassSite
import MemberDoc.Proofs.NamespaceScope
import MemberDoc.Proofs.TextLines
import MemberDoc.Proofs.TreeWrites

set_option autoImplicit false

/-! Snapshots before and after a document is written. The ancestors of a class contribute the same names to
both as long as they stand in other documents. -/

namespace MemberDoc.ClassName

theorem trim_dropWhile (name : Text) (mark : Char) (solid : Text.isBlank mark = false) :
    Text.trim (mark :: (Text.trim name).dropWhile (· == mark)) = mark :: (Text.trim name).dropWhile (· == mark) := by
  apply Text.trim_of_firm mark _ solid
  generalize kept : (Text.trim name).dropWhile (· == mark) = rest
  cases rest with
  | nil => exact Text.endsFirm_concat [] mark solid
  | cons c rest =>
      apply Text.endsFirm_append [mark] (c :: rest) (List.cons_ne_nil c rest)
      obtain ⟨lead, whole⟩ : (c :: rest) <:+ Text.trim name := kept ▸ List.dropWhile_suffix _
      intro d last
      apply Text.endsFirm_trimEnd (Text.trimStart name) d
      change (Text.trim name).getLast? = some d
      rw [← whole, List.getLast?_append, last]
      rfl

@[simp] theorem qualified_qualified (name : Text) : qualified (qualified name) = qualified name := by
  unfold qualified
  rw [trim_dropWhile name '\\' rfl, List.dropWhile_cons_of_pos (by rfl)]
  congr 1
  have starts := List.head?_dropWhile_not (fun c => c == '\\') (Text.trim name)
  cases known : (Text.trim name).dropWhile (· == '\\') with
  | nil => rfl
  | cons c rest =>
      rw [known] at starts
      have other : ¬ (c == '\\') = true := by simpa using starts
      exact List.dropWhile_cons_of_neg other

theorem endsFirm_qualified (name : Text) : Text.EndsFirm (qualified name) := by
  have trimmed := trim_dropWhile name '\\' rfl
  unfold qualified
  rw [← trimmed]
  exact Text.endsFirm_trimEnd _

private theorem mem_of_mem_rooted (rest : Text) (c : Char) (member : c ∈ '\\' :: rest) :
    c = '\\' ∨ c ∈ enclosing ('\\' :: rest) ∨ c ∈ short ('\\' :: rest) := by
  have cut : ('\\' :: rest).dropWhile (· == '\\') = rest.dropWhile (· == '\\') :=
    List.dropWhile_cons_of_pos rfl
  have whole : rest = rest.takeWhile (· == '\\') ++ rest.dropWhile (· == '\\') :=
    List.takeWhile_append_dropWhile.symm
  have slashes : ∀ d ∈ rest.takeWhile (· == '\\'), d = '\\' := by
    intro d inside
    simpa using List.all_eq_true.mp List.all_takeWhile d inside
  unfold enclosing short
  rw [cut]
  generalize rest.takeWhile (· == '\\') = front at whole slashes
  generalize rest.dropWhile (· == '\\') = behind at whole
  subst whole
  rcases List.mem_cons.mp member with rfl | inside
  · exact .inl rfl
  · rcases List.mem_append.mp inside with inFront | inBehind
    · exact .inl (slashes c inFront)
    · cases split : Text.splitLast? '\\' behind with
      | some parts =>
          obtain ⟨path, last⟩ := parts
          obtain ⟨place, apart⟩ := Text.splitLast_append _ _ _ _ split
          have again : '\\' :: (front ++ behind) = ('\\' :: (front ++ path)) ++ '\\' :: last := by
            rw [place]
            simp only [List.cons_append, List.append_assoc]
          rw [again, Text.splitLast_of_last _ _ _ apart]
          rw [place] at inBehind
          rcases List.mem_append.mp inBehind with inPath | later
          · exact .inr (.inl inPath)
          · rcases List.mem_cons.mp later with same | inLast
            · exact .inl same
            · exact .inr (.inr inLast)
      | none =>
          have apart := Text.splitLast_eq_none _ _ split
          have again : ∃ lead, '\\' :: (front ++ behind) = lead ++ '\\' :: behind := by
            rcases List.eq_nil_or_concat front with rfl | ⟨others, d, rfl⟩
            · exact ⟨[], rfl⟩
            · have slash := slashes d (by simp)
              exact ⟨'\\' :: others, by simp [slash]⟩
          obtain ⟨lead, again⟩ := again
          rw [again, Text.splitLast_of_last _ _ _ apart]
          exact .inr (.inr inBehind)

end MemberDoc.ClassName

namespace MemberDoc.Source

private theorem findAtLines_forall {α : Type} (read? : Text → Option (α × Text)) (property : α → Prop)
    (holds : ∀ text value after, read? text = some (value, after) → property value) (skip : Nat) (atStart : Bool)
    (text : Text) : ∀ value ∈ findAtLines read? skip atStart text, property value := by
  induction text generalizing skip atStart with
  | nil =>
      intro value member
      cases skip <;> cases member
  | cons c text ih =>
      cases skip with
      | succ skip => exact ih skip _
      | zero =>
          rw [findAtLines_cons]
          split
          · rename_i found after known
            intro value member
            rcases List.mem_cons.mp member with rfl | later
            · split at known
              · exact holds _ _ _ known
              · cases known
            · exact ih _ _ value later
          · exact ih _ _

private theorem not_mem_qualifiedName (text name rest : Text) (found : qualifiedName? text = some (name, rest))
    (mark : Char) (notStart : Text.isLetterStart mark = false) (notWord : Text.isWord mark = false)
    (notSlash : mark ≠ '\\') :
    mark ∉ name := by
  cases text with
  | nil => cases found
  | cons c text =>
      rw [qualifiedName?] at found
      split at found
      · rename_i start
        cases found
        intro member
        rcases List.mem_cons.mp member with rfl | inside
        · rw [start] at notStart
          cases notStart
        · have taken := List.all_eq_true.mp List.all_takeWhile _ inside
          simp [notWord, notSlash] at taken
      · cases found

/-- No character that cannot stand in a name stands in a namespace. -/
theorem not_mem_namespaceOf (before : Text) (mark : Char) (notStart : Text.isLetterStart mark = false)
    (notWord : Text.isWord mark = false) (notSlash : mark ≠ '\\') : mark ∉ namespaceOf before := by
  have each := findAtLines_forall namespaceAt? (fun name => mark ∉ name) (by
    intro text name after found
    unfold namespaceAt? at found
    obtain ⟨keyword, _, found⟩ := Option.bind_eq_some_iff.mp found
    obtain ⟨blanks, _, found⟩ := Option.bind_eq_some_iff.mp found
    obtain ⟨⟨own, rest⟩, known, found⟩ := Option.bind_eq_some_iff.mp found
    have same : own = name := by
      dsimp only at found
      split at found
      · split at found
        · cases found
          rfl
        · cases found
      · cases found
    subst same
    exact not_mem_qualifiedName _ own rest known mark notStart notWord notSlash) 0 true before
  unfold namespaceOf
  cases last : (findAtLines namespaceAt? 0 true before).getLast? with
  | none => exact List.not_mem_nil
  | some name => exact each name (List.mem_of_getLast? last)

theorem not_mem_of_site (source className : Text) (site : Site) (known : site? source className = some site)
    (mark : Char) (small : mark.toNat < 65) (notName : Text.isNameChar mark = false)
    (notStart : Text.isLetterStart mark = false) (notWord : Text.isWord mark = false) :
    mark ∉ ClassName.qualified className := by
  obtain ⟨found, scope, _⟩ := (site_eq_some_iff source className site).mp known
  obtain ⟨_, sameShort, rest, attempt⟩ := findDeclaration_spec _ _ _ _ _ found
  have notSlash : mark ≠ '\\' := by
    rintro rfl
    exact absurd small (by decide)
  have inShort : mark ∉ ClassName.short (ClassName.qualified className) := by
    apply Text.not_mem_of_sameName _ _ sameShort mark small
    intro member
    have named := (declarationAt_parts rest _ attempt).nameChars mark member
    rw [notName] at named
    cases named
  have inNamespace : mark ∉ ClassName.enclosing (ClassName.qualified className) :=
    Text.not_mem_of_sameName _ _ scope mark small (not_mem_namespaceOf _ mark notStart notWord notSlash)
  intro member
  rcases ClassName.mem_of_mem_rooted _ mark member with slash | inside | inside
  · exact notSlash slash
  · exact inNamespace inside
  · exact inShort inside

end MemberDoc.Source

namespace MemberDoc.ClassMap

open Source

/-- The documents of the mapped ancestors of a class, from its parent on. -/
def lineage (tree : Tree) : Nat → ClassMap → Option Text → List Path
  | 0, _, _ => []
  | _ + 1, _, none => []
  | fuel + 1, classes, some parent =>
      match classes.path? parent with
      | none => []
      | some path =>
          path :: match inspect tree parent path with
            | .ok (_, outline) => lineage tree fuel (classes.erase parent) outline.parent
            | .error _ => []

theorem inspect_congr (left right : Tree) (className : Text) (path : Path) (same : right.read path = left.read path) :
    inspect right className path = inspect left className path := by
  unfold inspect
  rw [same]

private theorem inherit_congr (left right : Tree) (fuel : Nat) (classes : ClassMap) (parent : Option Text)
    (names : MemberNames) (same : ∀ path ∈ lineage left fuel classes parent, right.read path = left.read path) :
    inherit right fuel classes parent names = inherit left fuel classes parent names := by
  induction fuel generalizing classes parent names with
  | zero => rfl
  | succ fuel ih =>
      cases parent with
      | none => rfl
      | some parent =>
          rw [lineage] at same
          rw [inherit, inherit]
          cases known : classes.path? parent with
          | none => rfl
          | some path =>
              rw [known] at same
              dsimp only at same ⊢
              rw [inspect_congr left right parent path (same path List.mem_cons_self)]
              cases looked : inspect left parent path with
              | error cause => rfl
              | ok found =>
                  rw [looked] at same
                  exact ih _ _ _ fun other member => same other (List.mem_cons_of_mem path member)

/-- Ancestors contribute the same names to whatever a class declares itself. -/
theorem has_inherit (tree : Tree) (fuel : Nat) (classes : ClassMap) (parent : Option Text) (names result : MemberNames)
    (known : inherit tree fuel classes parent names = .ok result) :
    ∃ inherited : MemberNames, ∀ own : MemberNames, ∃ all, inherit tree fuel classes parent own = .ok all ∧
      ∀ member, all.Has member ↔ own.Has member ∨ inherited.Has member := by
  have nothing (member : MemberName) : ¬ (MemberNames.mk [] []).Has member := by
    cases member <;> exact List.not_mem_nil
  induction fuel generalizing classes parent names with
  | zero => exact ⟨⟨[], []⟩, fun own => ⟨own, rfl, fun member => by simp [nothing member]⟩⟩
  | succ fuel ih =>
      cases parent with
      | none => exact ⟨⟨[], []⟩, fun own => ⟨own, rfl, fun member => by simp [nothing member]⟩⟩
      | some parent =>
          rw [inherit] at known
          cases mapped : classes.path? parent with
          | none =>
              refine ⟨⟨[], []⟩, fun own => ⟨own, ?_, fun member => by simp [nothing member]⟩⟩
              rw [inherit, mapped]
          | some path =>
              rw [mapped] at known
              dsimp only at known
              cases looked : inspect tree parent path with
              | error cause =>
                  rw [looked] at known
                  cases known
              | ok found =>
                  obtain ⟨source, outline⟩ := found
                  rw [looked] at known
                  obtain ⟨above, inherited⟩ := ih _ _ _ known
                  refine ⟨⟨outline.properties ++ above.properties, outline.methods ++ above.methods⟩, fun own => ?_⟩
                  obtain ⟨all, result, has⟩ := inherited
                    ⟨outline.properties.foldl Text.pushNew own.properties, outline.methods.foldl Text.pushNew own.methods⟩
                  refine ⟨all, ?_, fun member => ?_⟩
                  · rw [inherit, mapped]
                    dsimp only
                    rw [looked]
                    exact result
                  · rw [has]
                    cases member with
                    | property name =>
                        change name ∈ _ ∨ name ∈ _ ↔ name ∈ _ ∨ name ∈ _ ++ _
                        rw [mem_foldl_pushNew, List.mem_append, or_assoc]
                    | method name =>
                        change name ∈ _ ∨ name ∈ _ ↔ name ∈ _ ∨ name ∈ _ ++ _
                        rw [mem_foldl_pushNew, List.mem_append, or_assoc]

theorem inspect_eq_ok_iff (tree : Tree) (className : Text) (path : Path) (source : Text) (outline : Outline) :
    inspect tree className path = .ok (source, outline) ↔
      tree.read path = .ok source ∧ ∃ site, site? source className = some site ∧ outline = site.outline source := by
  unfold inspect
  cases tree.read path with
  | error cause => exact ⟨nofun, nofun⟩
  | ok text =>
      rw [← outline_eq_ok_iff]
      change ((Source.outline text className).mapError (ReflectError.unscannable className path) >>= fun outline =>
        .ok (text, outline)) = .ok (source, outline) ↔ _
      cases known : Source.outline text className with
      | error cause =>
          constructor
          · intro impossible
            cases impossible
          · rintro ⟨same, found⟩
            cases same
            cases known.symm.trans found
      | ok found =>
          constructor
          · intro read
            cases read
            exact ⟨rfl, known⟩
          · rintro ⟨same, whole⟩
            cases same
            cases known.symm.trans whole
            rfl

def snapshotAt (className : Text) (path : Path) (source : Text) (site : Site) (names : MemberNames) : Snapshot where
  name := className
  instantiable := (site.outline source).isInstantiable
  properties := names.properties
  methods := names.methods
  docComment := (site.docComment source).map (·.text)
  source
  path

theorem reflect_of_unmapped (classes : ClassMap) (tree : Tree) (className : Text)
    (outside : classes.path? (ClassName.qualified className) = none) :
    classes.reflect tree className = .error (.unmapped (ClassName.qualified className)) := by
  unfold reflect
  dsimp only
  rw [outside]
  rfl

theorem reflect_of_failure (classes : ClassMap) (tree : Tree) (className : Text) (path : Path) (cause : ReflectError)
    (mapped : classes.path? (ClassName.qualified className) = some path)
    (failed : inspect tree (ClassName.qualified className) path = .error cause) :
    classes.reflect tree className = .error cause := by
  unfold reflect
  dsimp only
  rw [mapped]
  simp only [bind, Except.bind]
  rw [failed]

theorem reflect_of_inspect (classes : ClassMap) (tree : Tree) (className : Text) (path : Path) (source : Text)
    (outline : Outline) (mapped : classes.path? (ClassName.qualified className) = some path)
    (looked : inspect tree (ClassName.qualified className) path = .ok (source, outline)) :
    classes.reflect tree className =
      (inherit tree classes.entries.length classes outline.parent ⟨outline.properties, outline.methods⟩).map
        fun names => ⟨ClassName.qualified className, outline.isInstantiable, names.properties, names.methods,
          outline.docComment.map (·.text), source, path⟩ := by
  unfold reflect
  dsimp only
  rw [mapped]
  simp only [bind, Except.bind]
  rw [looked]
  dsimp only
  cases inherit tree classes.entries.length classes outline.parent ⟨outline.properties, outline.methods⟩ with
  | error cause => rfl
  | ok names => rfl

theorem reflect_eq_ok_iff (classes : ClassMap) (tree : Tree) (className : Text) (snapshot : Snapshot) :
    classes.reflect tree className = .ok snapshot ↔
      ∃ path source site names, classes.path? (ClassName.qualified className) = some path ∧
        tree.read path = .ok source ∧ site? source (ClassName.qualified className) = some site ∧
        inherit tree classes.entries.length classes site.parent (memberNames site.body) = .ok names ∧
        snapshot = snapshotAt (ClassName.qualified className) path source site names := by
  constructor
  · intro known
    cases mapped : classes.path? (ClassName.qualified className) with
    | none =>
        rw [reflect_of_unmapped classes tree className mapped] at known
        cases known
    | some path =>
        cases looked : inspect tree (ClassName.qualified className) path with
        | error cause =>
            rw [reflect_of_failure classes tree className path cause mapped looked] at known
            cases known
        | ok found =>
            obtain ⟨source, outline⟩ := found
            obtain ⟨read, site, here, rfl⟩ := (inspect_eq_ok_iff _ _ _ _ _).mp looked
            rw [reflect_of_inspect classes tree className path source _ mapped looked] at known
            cases above : inherit tree classes.entries.length classes (site.outline source).parent
                ⟨(site.outline source).properties, (site.outline source).methods⟩ with
            | error cause =>
                rw [above] at known
                cases known
            | ok names =>
                rw [above] at known
                cases known
                exact ⟨path, source, site, names, rfl, read, here, above, rfl⟩
  · rintro ⟨path, source, site, names, mapped, read, here, above, rfl⟩
    have looked := (inspect_eq_ok_iff tree (ClassName.qualified className) path source _).mpr ⟨read, site, here, rfl⟩
    rw [reflect_of_inspect classes tree className path source _ mapped looked]
    change (inherit tree classes.entries.length classes site.parent (memberNames site.body)).map _ = _
    rw [above]
    rfl

def allNames (snapshot : Snapshot) : MemberNames :=
  ⟨snapshot.properties, snapshot.methods⟩

theorem reflect_site (classes : ClassMap) (tree : Tree) (className : Text) (snapshot : Snapshot) (site : Site)
    (reflected : classes.reflect tree className = .ok snapshot)
    (located : site? snapshot.source (ClassName.qualified className) = some site) :
    classes.path? (ClassName.qualified className) = some snapshot.path ∧ tree.read snapshot.path = .ok snapshot.source ∧
      inherit tree classes.entries.length classes site.parent (memberNames site.body) = .ok (allNames snapshot) ∧
      snapshot = snapshotAt (ClassName.qualified className) snapshot.path snapshot.source site (allNames snapshot) := by
  obtain ⟨path, source, found, names, mapped, read, here, above, rfl⟩ := (reflect_eq_ok_iff _ _ _ _).mp reflected
  change site? source (ClassName.qualified className) = some site at located
  rw [here, Option.some.injEq] at located
  subst located
  exact ⟨mapped, read, above, rfl⟩

/-- The snapshot after the document of a class has been written, while its ancestors stand elsewhere. -/
theorem reflect_after_write (classes : ClassMap) (tree after : Tree) (className : Text) (snapshot : Snapshot)
    (site new : Site) (text : Text) (reflected : classes.reflect tree className = .ok snapshot)
    (located : site? snapshot.source (ClassName.qualified className) = some site)
    (elsewhere : ∀ path ∈ lineage tree classes.entries.length classes site.parent,
      tree.locate path ≠ tree.locate snapshot.path)
    (written : tree.write snapshot.path text = .ok after)
    (found : site? text (ClassName.qualified className) = some new) (parent : new.parent = site.parent) :
    ∃ inherited all : MemberNames, classes.reflect after className =
        .ok (snapshotAt (ClassName.qualified className) snapshot.path text new all) ∧
      (∀ member, (allNames snapshot).Has member ↔ (memberNames site.body).Has member ∨ inherited.Has member) ∧
      ∀ member, all.Has member ↔ (memberNames new.body).Has member ∨ inherited.Has member := by
  obtain ⟨mapped, read, above, _⟩ := reflect_site classes tree className snapshot site reflected located
  obtain ⟨readBack, unchanged⟩ := tree.read_after_write after snapshot.path snapshot.source text read written
  obtain ⟨inherited, each⟩ := has_inherit tree _ classes site.parent _ _ above
  obtain ⟨before, known, hasBefore⟩ := each (memberNames site.body)
  obtain ⟨all, again, hasAll⟩ := each (memberNames new.body)
  rw [above, Except.ok.injEq] at known
  subst known
  refine ⟨inherited, all, (reflect_eq_ok_iff _ _ _ _).mpr ?_, hasBefore, hasAll⟩
  refine ⟨snapshot.path, text, new, all, mapped, readBack, found, ?_, rfl⟩
  rw [parent, inherit_congr tree after _ classes site.parent _ fun path member => unchanged path (elsewhere path member)]
  exact again

end MemberDoc.ClassMap
