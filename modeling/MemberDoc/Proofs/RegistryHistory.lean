import MemberDoc.Config.Basic
import MemberDoc.Proofs.UpdateCourse

set_option autoImplicit false

/-! The history of a registry. Whatever is requested, in whichever order and by whomever, a registry holds
the first request for each name, in the order in which they came and as they came. -/

namespace MemberDoc.Registry

/-- What a request takes up. All methods share one set of names, in which case does not count. -/
inductive Slot where
  | virtualProperty (name : Text)
  | declaredProperty (name : Text)
  | method (lowerName : Text)
  deriving DecidableEq

namespace Request

def slot : Request → Slot
  | .virtualProperty property => .virtualProperty property.name
  | .virtualMethod method => .method (Text.lower method.name)
  | .declaredProperty property => .declaredProperty property.name
  | .declaredMethod method => .method (Text.lower method.name)

def virtualProperty? : Request → Option VirtualProperty
  | .virtualProperty property => some property
  | _ => none

def virtualMethod? : Request → Option VirtualMethod
  | .virtualMethod method => some method
  | _ => none

def declaredProperty? : Request → Option DeclaredProperty
  | .declaredProperty property => some property
  | _ => none

def declaredMethod? : Request → Option DeclaredMethod
  | .declaredMethod method => some method
  | _ => none

def methodName? : Request → Option Text
  | .virtualMethod method => some method.name
  | .declaredMethod method => some method.name
  | _ => none

/-- The requests that are the first for their slot, where some slots have been asked for before. -/
def firsts (asked : List Slot) : List Request → List Request
  | [] => []
  | request :: rest =>
      let later := firsts (request.slot :: asked) rest
      if request.slot ∈ asked then later else request :: later

private theorem slot_of_mem_firsts (requests : List Request) (asked : List Slot) (slot : Slot)
    (member : slot ∈ (firsts asked requests).map Request.slot) : slot ∉ asked := by
  induction requests generalizing asked with
  | nil => cases member
  | cons request requests ih =>
      rw [firsts] at member
      have deeper (inside : slot ∈ (firsts (request.slot :: asked) requests).map Request.slot) : slot ∉ asked :=
        fun before => ih _ inside (List.mem_cons_of_mem _ before)
      split at member
      · exact deeper member
      · rename_i fresh
        rcases List.mem_cons.mp member with rfl | inside
        · exact fresh
        · exact deeper inside

theorem nodup_slots (requests : List Request) (asked : List Slot) :
    ((firsts asked requests).map Request.slot).Nodup := by
  induction requests generalizing asked with
  | nil => exact List.nodup_nil
  | cons request requests ih =>
      rw [firsts]
      split
      · exact ih _
      · refine List.nodup_cons.mpr ⟨fun again => ?_, ih _⟩
        exact slot_of_mem_firsts requests _ _ again List.mem_cons_self

private theorem firsts_congr (requests : List Request) (left right : List Slot)
    (same : ∀ slot, slot ∈ left ↔ slot ∈ right) :
    firsts left requests = firsts right requests := by
  induction requests generalizing left right with
  | nil => rfl
  | cons request requests ih =>
      have later : firsts (request.slot :: left) requests = firsts (request.slot :: right) requests :=
        ih _ _ fun slot => by rw [List.mem_cons, List.mem_cons, same]
      rw [firsts, firsts, later]
      by_cases asked : request.slot ∈ left
      · rw [if_pos asked, if_pos ((same _).mp asked)]
      · rw [if_neg asked, if_neg (asked ∘ (same _).mpr)]

private theorem firsts_of_asked (requests : List Request) (asked : List Slot)
    (all : ∀ request ∈ requests, request.slot ∈ asked) : firsts asked requests = [] := by
  induction requests generalizing asked with
  | nil => rfl
  | cons request requests ih =>
      rw [firsts, if_pos (all request List.mem_cons_self)]
      exact ih _ fun other member => List.mem_cons_of_mem _ (all other (List.mem_cons_of_mem _ member))

/-- Every slot that is asked for is taken by the first request for it. -/
theorem slot_mem_firsts (requests : List Request) (asked : List Slot) (request : Request) (member : request ∈ requests) :
    request.slot ∈ asked ∨ request.slot ∈ (firsts asked requests).map Request.slot := by
  induction requests generalizing asked with
  | nil => cases member
  | cons first requests ih =>
      by_cases before : first.slot ∈ asked
      · rw [firsts, if_pos before]
        rcases List.mem_cons.mp member with rfl | later
        · exact .inl before
        · rcases ih (first.slot :: asked) later with known | inside
          · rcases List.mem_cons.mp known with same | old
            · exact .inl (same ▸ before)
            · exact .inl old
          · exact .inr inside
      · rw [firsts, if_neg before, List.map_cons, List.mem_cons]
        rcases List.mem_cons.mp member with rfl | later
        · exact .inr (.inl rfl)
        · rcases ih (first.slot :: asked) later with known | inside
          · rcases List.mem_cons.mp known with same | old
            · exact .inr (.inl same)
            · exact .inl old
          · exact .inr (.inr inside)

end Request

def ofRequests (granted : List Request) : Registry where
  virtualProperties := granted.filterMap Request.virtualProperty?
  virtualMethods := granted.filterMap Request.virtualMethod?
  declaredProperties := granted.filterMap Request.declaredProperty?
  declaredMethods := granted.filterMap Request.declaredMethod?

variable (granted : List Request)

theorem mem_filterMap_of_mem {Member : Type} (member? : Request → Option Member) (make : Member → Request)
    (made : ∀ request member, member? request = some member ↔ request = make member) (member : Member) :
    member ∈ granted.filterMap member? ↔ make member ∈ granted := by
  rw [List.mem_filterMap]
  constructor
  · rintro ⟨request, inside, known⟩
    rw [← (made request member).mp known]
    exact inside
  · exact fun inside => ⟨_, inside, (made _ member).mpr rfl⟩

private theorem mem_virtualProperties (property : VirtualProperty) :
    property ∈ (ofRequests granted).virtualProperties ↔ .virtualProperty property ∈ granted :=
  mem_filterMap_of_mem granted _ Request.virtualProperty
    (fun request _ => by cases request <;> simp [Request.virtualProperty?]) property

private theorem mem_virtualMethods (method : VirtualMethod) :
    method ∈ (ofRequests granted).virtualMethods ↔ .virtualMethod method ∈ granted :=
  mem_filterMap_of_mem granted _ Request.virtualMethod
    (fun request _ => by cases request <;> simp [Request.virtualMethod?]) method

private theorem mem_declaredProperties (property : DeclaredProperty) :
    property ∈ (ofRequests granted).declaredProperties ↔ .declaredProperty property ∈ granted :=
  mem_filterMap_of_mem granted _ Request.declaredProperty
    (fun request _ => by cases request <;> simp [Request.declaredProperty?]) property

private theorem mem_declaredMethods (method : DeclaredMethod) :
    method ∈ (ofRequests granted).declaredMethods ↔ .declaredMethod method ∈ granted :=
  mem_filterMap_of_mem granted _ Request.declaredMethod
    (fun request _ => by cases request <;> simp [Request.declaredMethod?]) method

theorem slot_virtualProperty_iff (name : Text) :
    Slot.virtualProperty name ∈ granted.map Request.slot ↔
      ((ofRequests granted).virtualProperty? name).isSome = true := by
  unfold virtualProperty?
  simp only [List.find?_isSome, mem_virtualProperties, List.mem_map, beq_iff_eq]
  constructor
  · rintro ⟨request, inside, same⟩
    cases request <;> cases same
    exact ⟨_, inside, rfl⟩
  · rintro ⟨property, inside, rfl⟩
    exact ⟨_, inside, rfl⟩

theorem slot_declaredProperty_iff (name : Text) :
    Slot.declaredProperty name ∈ granted.map Request.slot ↔
      ((ofRequests granted).declaredProperties.any fun property => property.name == name) = true := by
  simp only [List.any_eq_true, mem_declaredProperties, List.mem_map, beq_iff_eq]
  constructor
  · rintro ⟨request, inside, same⟩
    cases request <;> cases same
    exact ⟨_, inside, rfl⟩
  · rintro ⟨property, inside, rfl⟩
    exact ⟨_, inside, rfl⟩

theorem slot_method_iff (name : Text) :
    Slot.method (Text.lower name) ∈ granted.map Request.slot ↔ (ofRequests granted).hasMethod name = true := by
  unfold hasMethod Text.sameName
  simp only [Bool.or_eq_true, List.any_eq_true, mem_virtualMethods, mem_declaredMethods, List.mem_map, beq_iff_eq]
  constructor
  · rintro ⟨request, inside, same⟩
    cases request with
    | virtualMethod method => exact .inl ⟨method, inside, Slot.method.inj same⟩
    | declaredMethod method => exact .inr ⟨method, inside, Slot.method.inj same⟩
    | virtualProperty | declaredProperty => cases same
  · rintro (⟨method, inside, same⟩ | ⟨method, inside, same⟩)
    · exact ⟨_, inside, congrArg Slot.method same⟩
    · exact ⟨_, inside, congrArg Slot.method same⟩

theorem ofRequests_concat (request : Request) :
    ofRequests (granted ++ [request]) =
      match request with
      | .virtualProperty property =>
          { ofRequests granted with virtualProperties := (ofRequests granted).virtualProperties ++ [property] }
      | .virtualMethod method =>
          { ofRequests granted with virtualMethods := (ofRequests granted).virtualMethods ++ [method] }
      | .declaredProperty property =>
          { ofRequests granted with declaredProperties := (ofRequests granted).declaredProperties ++ [property] }
      | .declaredMethod method =>
          { ofRequests granted with declaredMethods := (ofRequests granted).declaredMethods ++ [method] } := by
  unfold ofRequests
  simp only [List.filterMap_append]
  cases request <;>
    simp [Request.virtualProperty?, Request.virtualMethod?, Request.declaredProperty?, Request.declaredMethod?]

/-- A request is granted exactly if nothing has taken its slot, and then it comes last. -/
theorem add_ofRequests (request : Request) :
    (ofRequests granted).add request =
      if request.slot ∈ granted.map Request.slot then ofRequests granted else ofRequests (granted ++ [request]) := by
  rw [ofRequests_concat]
  cases request with
  | virtualProperty property => simp only [add, Request.slot, slot_virtualProperty_iff]
  | virtualMethod method => simp only [add, Request.slot, slot_method_iff]
  | declaredProperty property => simp only [add, Request.slot, slot_declaredProperty_iff]
  | declaredMethod method => simp only [add, Request.slot, slot_method_iff]

theorem addAll_ofRequests (requests : List Request) :
    (ofRequests granted).addAll requests =
      ofRequests (granted ++ Request.firsts (granted.map Request.slot) requests) := by
  induction requests generalizing granted with
  | nil =>
      rw [Request.firsts, List.append_nil]
      rfl
  | cons request requests ih =>
      have step : (ofRequests granted).addAll (request :: requests) =
          ((ofRequests granted).add request).addAll requests := rfl
      rw [step, add_ofRequests, Request.firsts]
      by_cases taken : request.slot ∈ granted.map Request.slot
      · rw [if_pos taken, if_pos taken, ih, Request.firsts_congr requests (request.slot :: granted.map Request.slot)
          (granted.map Request.slot) fun slot => ?_]
        rw [List.mem_cons]
        exact ⟨fun known => known.elim (fun same => same ▸ taken) id, .inr⟩
      · rw [if_neg taken, if_neg taken, ih, List.append_assoc, List.singleton_append,
          Request.firsts_congr requests ((granted ++ [request]).map Request.slot)
            (request.slot :: granted.map Request.slot) fun slot => ?_]
        simp [or_comm]

/-- A registry holds the first request for each slot. -/
theorem addAll_empty (requests : List Request) : empty.addAll requests = ofRequests (Request.firsts [] requests) :=
  addAll_ofRequests [] requests

private theorem addAll_of_taken (requests : List Request)
    (taken : ∀ request ∈ requests, request.slot ∈ granted.map Request.slot) :
    (ofRequests granted).addAll requests = ofRequests granted := by
  rw [addAll_ofRequests, Request.firsts_of_asked requests _ taken, List.append_nil]

theorem pairwise_names {Member Name : Type} (member? : Request → Option Member) (name : Member → Name)
    (apart : Name → Name → Prop)
    (sound : ∀ left right, left.slot ≠ right.slot → ∀ first, member? left = some first →
      ∀ second, member? right = some second → apart (name first) (name second))
    (distinct : (granted.map Request.slot).Nodup) : ((granted.filterMap member?).map name).Pairwise apart := by
  rw [List.pairwise_map]
  exact List.Pairwise.filterMap member? sound (List.pairwise_map.mp distinct)

private theorem nodup_virtualProperties (distinct : (granted.map Request.slot).Nodup) :
    ((ofRequests granted).virtualProperties.map (·.name)).Nodup := by
  apply pairwise_names granted _ _ _ _ distinct
  intro left right differ first isFirst second isSecond same
  cases left <;> cases isFirst
  cases right <;> cases isSecond
  exact differ (congrArg Slot.virtualProperty same)

private theorem nodup_declaredProperties (distinct : (granted.map Request.slot).Nodup) :
    ((ofRequests granted).declaredProperties.map (·.name)).Nodup := by
  apply pairwise_names granted _ _ _ _ distinct
  intro left right differ first isFirst second isSecond same
  cases left <;> cases isFirst
  cases right <;> cases isSecond
  exact differ (congrArg Slot.declaredProperty same)

private theorem methodNames_perm :
    ((ofRequests granted).virtualMethods.map (·.name) ++ (ofRequests granted).declaredMethods.map (·.name)).Perm
      (granted.filterMap Request.methodName?) := by
  unfold ofRequests
  induction granted with
  | nil => exact .nil
  | cons request granted ih =>
      cases request with
      | virtualMethod method => exact ih.cons _
      | declaredMethod method => exact List.perm_middle.trans (ih.cons _)
      | virtualProperty property | declaredProperty property => exact ih

/-- Method names differ in more than case, within a registry of methods and between the two. -/
theorem pairwise_methodNames (distinct : (granted.map Request.slot).Nodup) :
    ((ofRequests granted).virtualMethods.map (·.name) ++
      (ofRequests granted).declaredMethods.map (·.name)).Pairwise fun left right => Text.sameName left right = false := by
  have symmetric {left right : Text} (differ : Text.sameName left right = false) : Text.sameName right left = false := by
    rw [← differ, Text.sameName, Text.sameName, Bool.beq_comm]
  rw [(methodNames_perm granted).pairwise_iff symmetric, ← List.map_id (granted.filterMap Request.methodName?)]
  apply pairwise_names granted _ _ _ _ distinct
  intro left right differ first isFirst second isSecond
  apply beq_false_of_ne
  intro same
  apply differ
  cases left <;> cases isFirst <;> cases right <;> cases isSecond <;> exact congrArg Slot.method same

def MethodsApart (registry : Registry) : Prop :=
  ∀ own ∈ registry.virtualMethods, ∀ declared ∈ registry.declaredMethods,
    Text.sameName own.name declared.name = false

theorem methodsApart_addAll (requests : List Request) : (empty.addAll requests).MethodsApart := by
  have names := pairwise_methodNames _ (Request.nodup_slots requests [])
  rw [← addAll_empty, List.pairwise_append] at names
  intro own isOwn declared isDeclared
  exact names.2.2 own.name (List.mem_map_of_mem isOwn) declared.name (List.mem_map_of_mem isDeclared)

structure Continues (before after : Registry) : Prop where
  virtualProperties : before.virtualProperties <+: after.virtualProperties
  virtualMethods : before.virtualMethods <+: after.virtualMethods
  declaredProperties : before.declaredProperties <+: after.declaredProperties
  declaredMethods : before.declaredMethods <+: after.declaredMethods

private theorem continues_ofRequests (more : List Request) :
    (ofRequests granted).Continues (ofRequests (granted ++ more)) := by
  unfold ofRequests
  constructor <;> simp only [List.filterMap_append, List.prefix_append]

end MemberDoc.Registry

namespace MemberDoc

def Updater.requests (updater : Updater) (tree : Tree) : List Registry.Request :=
  match updater.reflector tree updater.qualifiedName with
  | .ok snapshot => if snapshot.instantiable then updater.contributors.flatMap (· snapshot) else []
  | .error _ => []

theorem Registry.addAll_flatMap {Source : Type} (registry : Registry) (sources : List Source)
    (requests : Source → List Request) :
    sources.foldl (fun registry source => registry.addAll (requests source)) registry =
      registry.addAll (sources.flatMap requests) := by
  induction sources generalizing registry with
  | nil => rfl
  | cons source sources ih =>
      rw [List.foldl_cons, ih, List.flatMap_cons]
      exact (List.foldl_append ..).symm

private theorem Updater.addAll_requests (updater : Updater) (registry : Registry) (tree : Tree) (snapshot : Snapshot)
    (reflected : updater.reflector tree updater.qualifiedName = .ok snapshot) (ready : snapshot.instantiable = true) :
    registry.addAll (updater.requests tree) = updater.collected registry snapshot := by
  unfold requests collected
  rw [reflected]
  dsimp only
  rw [if_pos ready, Registry.addAll_flatMap]

private theorem Updater.run_registry (updater : Updater) (registry : Registry) (tree : Tree) :
    (updater.run registry tree).registry = registry.addAll (updater.requests tree) := by
  have course := updater.course_run registry tree
  generalize updater.run registry tree = run at course ⊢
  cases course with
  | failed cause reflected =>
      unfold requests
      rw [reflected]
      rfl
  | skipped snapshot reflected closed =>
      unfold requests
      rw [reflected]
      dsimp only
      rw [if_neg (by rw [closed]; decide)]
      rfl
  | unchanged snapshot reflected ready => exact (updater.addAll_requests registry tree snapshot reflected ready).symm
  | pending snapshot reflected ready => exact (updater.addAll_requests registry tree snapshot reflected ready).symm
  | written snapshot after reflected ready =>
      exact (updater.addAll_requests registry tree snapshot reflected ready).symm
  | writeFailed snapshot reason reflected ready =>
      exact (updater.addAll_requests registry tree snapshot reflected ready).symm

namespace Registry

/-- One event in the life of a registry: a request, the members of a configured target, or the run of an
update with contributors of its own. -/
inductive Event where
  | request (made : Request)
  | target (configured : ClassTarget)
  | run (updater : Updater) (tree : Tree)

def Event.requests : Event → List Request
  | .request made => [made]
  | .target configured => configured.requests
  | .run updater tree => updater.requests tree

def Event.apply (registry : Registry) : Event → Registry
  | .request made => registry.add made
  | .target configured => registry.addAll configured.requests
  | .run updater tree => (updater.run registry tree).registry

theorem Event.apply_eq (registry : Registry) (event : Event) : event.apply registry = registry.addAll event.requests := by
  cases event with
  | request made => rfl
  | target configured => rfl
  | run updater tree => exact updater.run_registry registry tree

structure Records (requests : List Request) (registry : Registry) : Prop where
  firsts : registry = ofRequests (Request.firsts [] requests)
  virtualProperties : (registry.virtualProperties.map (·.name)).Nodup
  declaredProperties : (registry.declaredProperties.map (·.name)).Nodup
  methods : (registry.virtualMethods.map (·.name) ++ registry.declaredMethods.map (·.name)).Pairwise
    fun left right => Text.sameName left right = false
  lasting : ∀ later : List Event, registry.Continues (later.foldl Event.apply registry)
  settled : ∀ again : List Event, (∀ event ∈ again, ∀ request ∈ event.requests, request ∈ requests) →
    again.foldl Event.apply registry = registry

private theorem foldl_apply (registry : Registry) (events : List Event) :
    events.foldl Event.apply registry = registry.addAll (events.flatMap Event.requests) := by
  rw [← addAll_flatMap]
  congr 1
  funext registry event
  exact event.apply_eq registry

/-- After any history a registry holds exactly the requests that were the first for their name, and so it
stays: nothing is removed or changed later, and repeated requests have no effect. -/
theorem records_of_history (events : List Event) :
    Records (events.flatMap Event.requests) (events.foldl Event.apply empty) := by
  have distinct := Request.nodup_slots (events.flatMap Event.requests) []
  rw [foldl_apply, addAll_empty]
  refine ⟨rfl, nodup_virtualProperties _ distinct, nodup_declaredProperties _ distinct,
    pairwise_methodNames _ distinct, fun later => ?_, fun again made => ?_⟩
  · rw [foldl_apply, addAll_ofRequests]
    exact continues_ofRequests _ _
  · rw [foldl_apply]
    apply addAll_of_taken
    intro request member
    obtain ⟨event, inside, requested⟩ := List.mem_flatMap.mp member
    rcases Request.slot_mem_firsts _ [] request (made event inside request requested) with absent | taken
    · cases absent
    · exact taken

end Registry
end MemberDoc
