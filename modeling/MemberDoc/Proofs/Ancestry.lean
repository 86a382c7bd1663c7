import MemberDoc.Member.Registry
import MemberDoc.Proofs.Reflection

set_option autoImplicit false

/-! What a snapshot takes from the ancestors of a class. An update asks of them only which of the pending members
they declare, so their documents may change as long as that stays. -/

namespace MemberDoc.Registry

open Source

def propertyNames (registry : Registry) : List Text :=
  registry.virtualProperties.map (·.name) ++ registry.declaredProperties.map (·.name)

def methodNames (registry : Registry) : List Text :=
  registry.virtualMethods.map (·.name) ++ registry.declaredMethods.map (·.name)

def accounted (registry : Registry) (names : MemberNames) : MemberNames where
  properties := registry.propertyNames.filter names.properties.contains
  methods := registry.methodNames.filter fun name => names.methods.any (Text.sameName · name)

theorem filter_eq_iff {Item : Type} (items : List Item) (left right : Item → Bool) :
    items.filter left = items.filter right ↔ ∀ item ∈ items, left item = right item := by
  refine ⟨fun same item member => ?_, fun same => List.filter_congr same⟩
  have both : item ∈ items.filter left ↔ item ∈ items.filter right := by rw [same]
  simp only [List.mem_filter, member, true_and] at both
  exact Bool.eq_iff_iff.mpr both

theorem accounted_eq_iff (registry : Registry) (left right : MemberNames) :
    registry.accounted left = registry.accounted right ↔
      (∀ name ∈ registry.propertyNames, left.properties.contains name = right.properties.contains name) ∧
        ∀ name ∈ registry.methodNames,
          left.methods.any (Text.sameName · name) = right.methods.any (Text.sameName · name) := by
  unfold accounted
  rw [MemberNames.mk.injEq, filter_eq_iff, filter_eq_iff]

private theorem accounted_grow (registry : Registry) (left right leftMore rightMore : MemberNames)
    (same : registry.accounted left = registry.accounted right)
    (more : registry.accounted leftMore = registry.accounted rightMore) :
    registry.accounted ⟨leftMore.properties.foldl Text.pushNew left.properties,
        leftMore.methods.foldl Text.pushNew left.methods⟩ =
      registry.accounted ⟨rightMore.properties.foldl Text.pushNew right.properties,
        rightMore.methods.foldl Text.pushNew right.methods⟩ := by
  have contains (names added : List Text) (name : Text) :
      (added.foldl Text.pushNew names).contains name = (names.contains name || added.contains name) := by
    rw [Bool.eq_iff_iff]
    simp
  have any (names added : List Text) (name : Text) :
      (added.foldl Text.pushNew names).any (Text.sameName · name) =
        (names.any (Text.sameName · name) || added.any (Text.sameName · name)) := by
    rw [Bool.eq_iff_iff]
    simp only [List.any_eq_true, Bool.or_eq_true, mem_foldl_pushNew, or_and_right, exists_or]
  rw [accounted_eq_iff] at same more ⊢
  refine ⟨fun name pending => ?_, fun name pending => ?_⟩
  · rw [contains, contains, same.1 name pending, more.1 name pending]
  · rw [any, any, same.2 name pending, more.2 name pending]

end MemberDoc.Registry

namespace MemberDoc.ClassMap

open Source

variable (registry : Registry)

structure Ancestor where
  className : Text
  path : Path
  deriving DecidableEq

/-- The mapped ancestors of a class, from its parent on. -/
def ancestry (tree : Tree) : Nat → ClassMap → Option Text → List Ancestor
  | 0, _, _ => []
  | _ + 1, _, none => []
  | fuel + 1, classes, some parent =>
      match classes.path? parent with
      | none => []
      | some path =>
          ⟨parent, path⟩ :: match inspect tree parent path with
            | .ok (_, outline) => ancestry tree fuel (classes.erase parent) outline.parent
            | .error _ => []

def ancestors (classes : ClassMap) (tree : Tree) (className : Text) : List Ancestor :=
  match (classes.path? className).bind fun path => (inspect tree className path).toOption with
  | some (_, outline) => ancestry tree classes.entries.length classes outline.parent
  | none => []

/-- What counts of an ancestor: its own parent, and the pending members that it declares. -/
structure Legacy where
  parent : Option Text
  names : MemberNames
  deriving DecidableEq

def legacy? (tree : Tree) (ancestor : Ancestor) : Option Legacy :=
  (inspect tree ancestor.className ancestor.path).toOption.map fun (_, outline) =>
    ⟨outline.parent, registry.accounted ⟨outline.properties, outline.methods⟩⟩

theorem legacy_congr (left right : Tree) (ancestor : Ancestor) (same : right.read ancestor.path = left.read ancestor.path) :
    legacy? registry right ancestor = legacy? registry left ancestor := by
  unfold legacy?
  rw [inspect_congr left right _ _ same]

/-- Ancestors that hand the same down account for the same pending members, wherever else their documents differ. -/
theorem inherit_of_legacy (left right : Tree) (fuel : Nat) (classes : ClassMap) (parent : Option Text)
    (leftNames rightNames : MemberNames) (alike : registry.accounted rightNames = registry.accounted leftNames)
    (same : ∀ ancestor ∈ ancestry left fuel classes parent,
      legacy? registry right ancestor = legacy? registry left ancestor) :
    (inherit right fuel classes parent rightNames).toOption.map registry.accounted =
      (inherit left fuel classes parent leftNames).toOption.map registry.accounted := by
  induction fuel generalizing classes parent leftNames rightNames with
  | zero => exact congrArg some alike
  | succ fuel ih =>
      cases parent with
      | none => exact congrArg some alike
      | some parent =>
          rw [ancestry] at same
          rw [inherit, inherit]
          cases known : classes.path? parent with
          | none => exact congrArg some alike
          | some path =>
              rw [known] at same
              dsimp only at same ⊢
              have here := same ⟨parent, path⟩ List.mem_cons_self
              unfold legacy? at here
              cases looked : inspect left parent path with
              | error cause =>
                  rw [looked] at here
                  cases again : inspect right parent path with
                  | error other => rfl
                  | ok found =>
                      rw [again] at here
                      cases here
              | ok found =>
                  rw [looked] at here same
                  cases again : inspect right parent path with
                  | error cause =>
                      rw [again] at here
                      cases here
                  | ok other =>
                      rw [again] at here
                      obtain ⟨_, outline⟩ := found
                      obtain ⟨_, others⟩ := other
                      simp only [Except.toOption, Option.map_some, Option.some.injEq, Legacy.mk.injEq] at here
                      obtain ⟨parents, names⟩ := here
                      simp only [bind, Except.bind]
                      rw [parents]
                      apply ih _ _ _ _ (registry.accounted_grow rightNames leftNames _ _ alike names)
                      exact fun ancestor member => same ancestor (List.mem_cons_of_mem _ member)

@[simp] theorem path_qualified (classes : ClassMap) (className : Text) :
    classes.path? (ClassName.qualified className) = classes.path? className := by
  unfold path? ClassName.key
  rw [ClassName.qualified_qualified]

def restricted (snapshot : Snapshot) : Snapshot :=
  { snapshot with
    properties := (registry.accounted (allNames snapshot)).properties
    methods := (registry.accounted (allNames snapshot)).methods }

private theorem toOption_reflect (classes : ClassMap) (tree : Tree) (className : Text) :
    (classes.reflect tree className).toOption =
      (classes.path? className).bind fun path => (tree.read path).toOption.bind fun source =>
        (site? source (ClassName.qualified className)).bind fun site =>
          (inherit tree classes.entries.length classes site.parent (memberNames site.body)).toOption.map
            (snapshotAt (ClassName.qualified className) path source site) := by
  apply Option.ext
  intro snapshot
  rw [← classes.path_qualified]
  simp only [Option.bind_eq_some_iff, Option.map_eq_some_iff]
  constructor
  · intro known
    obtain ⟨path, source, site, names, mapped, read, here, above, rfl⟩ :=
      (reflect_eq_ok_iff _ _ _ _).mp (eq_ok_of_toOption known)
    exact ⟨path, mapped, source, by rw [read]; rfl, site, here, names, by rw [above]; rfl, rfl⟩
  · rintro ⟨path, mapped, source, read, site, here, names, above, rfl⟩
    rw [(reflect_eq_ok_iff classes tree className _).mpr
      ⟨path, source, site, names, mapped, eq_ok_of_toOption read, here, eq_ok_of_toOption above, rfl⟩]
    rfl

/-- As far as pending members go, a snapshot depends on the document of its class and on what the ancestors hand
down. -/
theorem reflect_of_legacy (classes : ClassMap) (left right : Tree) (className : Text)
    (own : ∀ path, classes.path? className = some path → right.read path = left.read path)
    (same : ∀ ancestor ∈ ancestors classes left (ClassName.qualified className),
      legacy? registry right ancestor = legacy? registry left ancestor) :
    (classes.reflect right className).toOption.map (restricted registry) =
      (classes.reflect left className).toOption.map (restricted registry) := by
  rw [toOption_reflect, toOption_reflect]
  cases mapped : classes.path? className with
  | none => rfl
  | some path =>
      rw [Option.bind_some, Option.bind_some, own path mapped]
      cases read : left.read path with
      | error cause => rfl
      | ok source =>
          dsimp only [Except.toOption, Option.bind_some]
          cases here : site? source (ClassName.qualified className) with
          | none => rfl
          | some site =>
              have looked := (inspect_eq_ok_iff left (ClassName.qualified className) path source _).mpr
                ⟨read, site, here, rfl⟩
              have above : ancestors classes left (ClassName.qualified className) =
                  ancestry left classes.entries.length classes site.parent := by
                unfold ancestors
                rw [path_qualified, mapped, Option.bind_some, looked]
                rfl
              rw [above] at same
              have inherited :=
                inherit_of_legacy registry left right _ classes site.parent (memberNames site.body) _ rfl same
              -- Restricting a snapshot is restricting the names it was made with.
              have split (names : Option MemberNames) :
                  (names.map (snapshotAt (ClassName.qualified className) path source site)).map (restricted registry) =
                    (names.map registry.accounted).map (snapshotAt (ClassName.qualified className) path source site) := by
                cases names <;> rfl
              rw [Option.bind_some, Option.bind_some, split, split]
              exact congrArg _ inherited

theorem path_erase (classes : ClassMap) (erased className : Text) :
    (classes.erase erased).path? className =
      if ClassName.key className = ClassName.key erased then none else classes.path? className :=
  lookup_filter_ne classes.entries (ClassName.key erased) (ClassName.key className)

private theorem inherit_of_paths (tree : Tree) (fuel : Nat) (left right : ClassMap) (parent : Option Text)
    (names : MemberNames) (same : ∀ className, left.path? className = right.path? className) :
    inherit tree fuel left parent names = inherit tree fuel right parent names := by
  induction fuel generalizing left right parent names with
  | zero => rfl
  | succ fuel ih =>
      cases parent with
      | none => rfl
      | some parent =>
          have without (className : Text) : (left.erase parent).path? className = (right.erase parent).path? className := by
            rw [path_erase, path_erase, same]
          rw [inherit, inherit, same]
          simp only [fun outline names => ih (left.erase parent) (right.erase parent) outline names without]

theorem reflect_of_paths (left right : ClassMap) (size : left.entries.length = right.entries.length)
    (same : ∀ className, left.path? className = right.path? className) : left.reflect = right.reflect := by
  funext tree className
  unfold reflect
  simp only [same, size, fun parent names => inherit_of_paths tree right.entries.length left right parent names same]

end MemberDoc.ClassMap
