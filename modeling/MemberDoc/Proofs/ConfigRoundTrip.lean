import MemberDoc.Config.Codec
import MemberDoc.Proofs.TextLines

set_option autoImplicit false

/-! A configuration is read back from the JSON value that it is written as, in whatever order the
members of its objects stand. The written members of a record fit its fields, so opening the
record gives every field its value or leaves it out, and each decoder recovers what was encoded. -/

namespace MemberDoc
namespace Json

mutual

/-- The same value, with the members of its objects in any order. -/
inductive Reordered : Json → Json → Prop where
  | same (json : Json) : Reordered json json
  | array {items others : List Json} (ended : Bool) (each : ReorderedItems items others) :
      Reordered (.array items ended) (.array others ended)
  | object {members others : List (Option Text × Json)} (ended : Bool)
      (each : ReorderedMembers members others) :
      Reordered (.object members ended) (.object others ended)

inductive ReorderedItems : List Json → List Json → Prop where
  | nil : ReorderedItems [] []
  | cons {item other : Json} {items others : List Json} (first : Reordered item other)
      (rest : ReorderedItems items others) : ReorderedItems (item :: items) (other :: others)

inductive ReorderedMembers : List (Option Text × Json) → List (Option Text × Json) → Prop where
  | nil : ReorderedMembers [] []
  | cons {key : Option Text} {value other : Json} {members before after : List (Option Text × Json)}
      (first : Reordered value other) (rest : ReorderedMembers members (before ++ after)) :
      ReorderedMembers ((key, value) :: members) (before ++ (key, other) :: after)

end

/-- A decoder reads a value from a JSON value, however its members are ordered. -/
def Recovers {α : Type} (decoder : Decoder α) (json : Json) (value : α) : Prop :=
  ∀ other, Reordered json other → decoder other = .ok value

theorem recovers_text (text : Text) : Recovers decodeText (.string text) text := by
  intro other reordered
  cases reordered
  rfl

theorem recovers_bool (value : Bool) : Recovers decodeBool (.bool value) value := by
  intro other reordered
  cases reordered
  rfl

private theorem decodeOptional_of_ne_null {α : Type} (decoder : Decoder α) {json : Json}
    (present : json ≠ .null) : decodeOptional decoder json = (decoder json).map some := by
  cases json with
  | null => exact absurd rfl present
  | _ => rfl

theorem Recovers.optional {α : Type} {decoder : Decoder α} {json : Json} {value : α}
    (recovers : Recovers decoder json value) (present : json ≠ .null) :
    Recovers (decodeOptional decoder) json (some value) := by
  intro other reordered
  have alsoPresent : other ≠ .null := by
    rintro rfl
    cases reordered
    exact present rfl
  rw [decodeOptional_of_ne_null decoder alsoPresent, recovers other reordered]
  rfl

theorem decodeItems_of_reordered {α : Type} {decoder : Decoder α} {encode : α → Json}
    (values : List α) (each : ∀ value ∈ values, Recovers decoder (encode value) value)
    (others : List Json) (reordered : ReorderedItems (values.map encode) others) :
    decodeItems decoder others = .ok values := by
  induction values generalizing others with
  | nil =>
      cases reordered
      rfl
  | cons value rest ih =>
      cases reordered with
      | cons first remaining =>
          have read := each value (by simp) _ first
          have readRest := ih (fun other member => each other (by simp [member])) _ remaining
          simp only [decodeItems, read, readRest]
          rfl

theorem reorderedItems_refl (items : List Json) : ReorderedItems items items := by
  induction items with
  | nil => exact .nil
  | cons item rest ih => exact .cons (.same item) ih

theorem recovers_list {α : Type} {decoder : Decoder α} {encode : α → Json} (values : List α)
    (each : ∀ value ∈ values, Recovers decoder (encode value) value) :
    Recovers (decodeList decoder) (.list (values.map encode)) values := by
  have read (others : List Json) (reordered : ReorderedItems (values.map encode) others) :
      decodeList decoder (.array others true) = .ok values := by
    simp only [decodeList, decodeItems_of_reordered values each others reordered]
    rfl
  intro other reordered
  cases reordered with
  | same => exact read _ (reorderedItems_refl _)
  | array ended each => exact read _ each

/-- The members of a record are its fields in order, and only optional fields are left out. The last
argument says what the fields hold once the record is open, whatever order its members had. -/
inductive Fits : List Field → Slots → (Slots → Prop) → Prop where
  | nil : Fits [] [] fun _ => True
  | needs {fields : List Field} {members : Slots} {holds : Slots → Prop} {α : Type}
      {decoder : Decoder α} {json : Json} {value : α} (name : String)
      (recovers : Recovers decoder json value) (rest : Fits fields members holds) :
      Fits (.needs name decoder :: fields) ((name.toList, json) :: members)
        fun slots => slots.required name decoder = .ok value ∧ holds slots
  | takes {fields : List Field} {members : Slots} {holds : Slots → Prop} {α : Type}
      {decoder : Decoder α} {json : Json} {value : α} (name : String) (default : α)
      (recovers : Recovers decoder json value) (rest : Fits fields members holds) :
      Fits (.takes name decoder :: fields) ((name.toList, json) :: members)
        fun slots => slots.defaulted name default decoder = .ok value ∧ holds slots
  | omits {fields : List Field} {members : Slots} {holds : Slots → Prop} {α : Type}
      (decoder : Decoder α) (name : String) (default : α) (rest : Fits fields members holds) :
      Fits (.takes name decoder :: fields) members
        fun slots => slots.defaulted name default decoder = .ok default ∧ holds slots

private theorem check_of_recovers {α : Type} {decoder : Decoder α} {json : Json} {value : α}
    (recovers : Recovers decoder json value) (other : Json) (reordered : Reordered json other) :
    (decoder other).map (fun _ => ()) = .ok () := by
  rw [recovers other reordered]
  rfl

namespace Fits

variable {fields : List Field} {members : Slots} {holds : Slots → Prop}

theorem keys_sublist (fits : Fits fields members holds) :
    (members.map Prod.fst).Sublist (fields.map Field.name) := by
  induction fits with
  | nil => exact .slnil
  | needs name recovers rest ih => exact ih.cons_cons name.toList
  | takes name default recovers rest ih => exact ih.cons_cons name.toList
  | omits decoder name default rest ih => exact ih.cons name.toList

private theorem field_of_mem (fits : Fits fields members holds) {key : Text} {value : Json}
    (member : (key, value) ∈ members) :
    ∃ field ∈ fields, field.name = key ∧
      ∀ other, Reordered value other → field.check other = .ok () := by
  induction fits with
  | nil => cases member
  | needs name recovers rest ih =>
      rcases List.mem_cons.mp member with same | later
      · cases same
        exact ⟨_, List.mem_cons_self, rfl, check_of_recovers recovers⟩
      · obtain ⟨field, among, facts⟩ := ih later
        exact ⟨field, List.mem_cons_of_mem _ among, facts⟩
  | takes name default recovers rest ih =>
      rcases List.mem_cons.mp member with same | later
      · cases same
        exact ⟨_, List.mem_cons_self, rfl, check_of_recovers recovers⟩
      · obtain ⟨field, among, facts⟩ := ih later
        exact ⟨field, List.mem_cons_of_mem _ among, facts⟩
  | omits decoder name default rest ih =>
      obtain ⟨field, among, facts⟩ := ih member
      exact ⟨field, List.mem_cons_of_mem _ among, facts⟩

private theorem key_of_required (fits : Fits fields members holds) {field : Field} (among : field ∈ fields)
    (required : field.required = true) : field.name ∈ members.map Prod.fst := by
  induction fits with
  | nil => cases among
  | needs name recovers rest ih =>
      rcases List.mem_cons.mp among with rfl | later
      · exact List.mem_cons_self
      · exact List.mem_cons_of_mem _ (ih later)
  | takes name default recovers rest ih =>
      rcases List.mem_cons.mp among with rfl | later
      · cases required
      · exact List.mem_cons_of_mem _ (ih later)
  | omits decoder name default rest ih =>
      rcases List.mem_cons.mp among with rfl | later
      · cases required
      · exact ih later

end Fits

private theorem find_name {fields : List Field} (distinct : (fields.map Field.name).Nodup) {field : Field}
    (among : field ∈ fields) : fields.find? (·.name == field.name) = some field := by
  induction fields with
  | nil => cases among
  | cons first rest ih =>
      rw [List.map_cons, List.nodup_cons] at distinct
      rcases List.mem_cons.mp among with rfl | later
      · simp
      · have differs : first.name ≠ field.name := by
          intro same
          exact distinct.1 (same ▸ List.mem_map_of_mem later)
        rw [List.find?_cons_of_neg (by simpa using differs)]
        exact ih distinct.2 later

/-- Members with distinct known keys and accepted values are all kept. -/
theorem openMembers_of_known (fields : List Field) (seen members : Slots)
    (known : ∀ key value, (key, value) ∈ members →
      ∃ field, fields.find? (·.name == key) = some field ∧ field.check value = .ok ())
    (distinct : ((seen ++ members).map Prod.fst).Nodup) :
    openMembers fields seen (members.map fun (key, value) => (some key, value)) =
      .ok (seen ++ members) := by
  induction members generalizing seen with
  | nil => simp [openMembers]
  | cons member rest ih =>
      obtain ⟨key, value⟩ := member
      obtain ⟨field, found, checked⟩ := known key value (by simp)
      have fresh : seen.any (·.1 == key) = false := by
        simp only [List.map_append, List.map_cons, List.nodup_append] at distinct
        rw [List.any_eq_false]
        intro slot among same
        exact distinct.2.2 slot.1 (List.mem_map_of_mem among) key (by simp) (beq_iff_eq.mp same)
      have moved : seen ++ (key, value) :: rest = (seen ++ [(key, value)]) ++ rest := by simp
      rw [moved] at distinct ⊢
      have later := ih (seen ++ [(key, value)])
        (fun other found member => known other found (List.mem_cons_of_mem _ member)) distinct
      rw [← later]
      simp only [List.map_cons, openMembers, found, fresh, checked]
      rfl

structure Renewed (members others : Slots) : Prop where
  keys : (others.map Prod.fst).Perm (members.map Prod.fst)
  values : ∀ key other, (key, other) ∈ others → ∃ value, (key, value) ∈ members ∧ Reordered value other

private theorem renewed_of_members (members : Slots) (others : List (Option Text × Json))
    (reordered : ReorderedMembers (members.map fun (key, value) => (some key, value)) others) :
    ∃ slots : Slots, others = slots.map (fun (key, value) => (some key, value)) ∧
      Renewed members slots := by
  induction members generalizing others with
  | nil =>
      cases reordered
      exact ⟨[], rfl, .refl _, fun _ _ member => by cases member⟩
  | cons member rest ih =>
      obtain ⟨key, value⟩ := member
      cases reordered with
      | @cons _ _ other _ before after first remaining =>
          obtain ⟨slots, written, renewed⟩ := ih _ remaining
          obtain ⟨front, back, rfl, rfl, rfl⟩ := List.append_eq_map_iff.mp written
          refine ⟨front ++ (key, other) :: back, by simp, ?_, ?_⟩
          · have moved : ((front ++ (key, other) :: back).map Prod.fst).Perm
                (key :: (front ++ back).map Prod.fst) := by
              rw [List.map_append, List.map_append, List.map_cons]
              exact List.perm_middle
            exact moved.trans (renewed.keys.cons key)
          · intro name found among
            have places : (name, found) = (key, other) ∨ (name, found) ∈ front ++ back := by
              simp only [List.mem_append, List.mem_cons] at among ⊢
              exact or_left_comm.mp among
            rcases places with same | later
            · cases same
              exact ⟨value, by simp, first⟩
            · obtain ⟨origin, within, also⟩ := renewed.values name found later
              exact ⟨origin, List.mem_cons_of_mem _ within, also⟩

private theorem renewed_of_record {members : Slots} {other : Json}
    (reordered : Reordered (.record members) other) :
    ∃ slots, other = .record slots ∧ Renewed members slots := by
  cases reordered with
  | same => exact ⟨members, rfl, .refl _, fun key value among => ⟨value, among, .same value⟩⟩
  | object ended each =>
      obtain ⟨slots, rfl, renewed⟩ := renewed_of_members members _ each
      exact ⟨slots, rfl, renewed⟩

/-- A key has its reordered value in the slots, or none where it had none. -/
inductive Kept (members slots : Slots) (key : Text) : Prop where
  | absent (unwritten : members.lookup key = none) (missing : slots.lookup key = none)
  | present {value other : Json} (written : members.lookup key = some value)
      (found : slots.lookup key = some other) (reordered : Reordered value other)

theorem lookup_of_not_mem {entries : Slots} {key : Text} (unlisted : key ∉ entries.map Prod.fst) :
    entries.lookup key = none := by
  rw [List.lookup_eq_none_iff]
  intro entry among
  rw [bne_iff_ne]
  exact fun same => unlisted (same ▸ List.mem_map_of_mem among)

private theorem Renewed.kept {members slots : Slots} (renewed : Renewed members slots)
    (distinct : (members.map Prod.fst).Nodup) (key : Text) : Kept members slots key := by
  have alsoDistinct : (slots.map Prod.fst).Nodup := renewed.keys.nodup_iff.mpr distinct
  by_cases listed : key ∈ slots.map Prod.fst
  · obtain ⟨⟨name, other⟩, among, rfl⟩ := List.mem_map.mp listed
    obtain ⟨value, within, reordered⟩ := renewed.values name other among
    exact .present (lookup_of_mem members distinct name value within)
      (lookup_of_mem slots alsoDistinct name other among) reordered
  · have unlisted : key ∉ members.map Prod.fst := fun among => listed (renewed.keys.mem_iff.mpr among)
    exact .absent (lookup_of_not_mem unlisted) (lookup_of_not_mem listed)

namespace Kept

variable {members slots : Slots} {key name : Text} {json : Json}

private theorem of_head (kept : Kept ((name, json) :: members) slots name) :
    ∃ other, slots.lookup name = some other ∧ Reordered json other := by
  cases kept with
  | absent unwritten _ => simp at unwritten
  | @present value other written found reordered =>
      obtain rfl : json = value := by simpa [List.lookup_cons] using written
      exact ⟨other, found, reordered⟩

private theorem of_tail (kept : Kept ((name, json) :: members) slots key) (differs : key ≠ name) :
    Kept members slots key := by
  have skipped : ((name, json) :: members).lookup key = members.lookup key := by
    rw [List.lookup_cons, beq_false_of_ne differs]
  cases kept with
  | absent unwritten missing => exact .absent (skipped.symm.trans unwritten) missing
  | present written found reordered => exact .present (skipped.symm.trans written) found reordered

private theorem of_unlisted (kept : Kept members slots key) (unlisted : key ∉ members.map Prod.fst) :
    slots.lookup key = none := by
  cases kept with
  | absent _ missing => exact missing
  | present written _ _ => simp [lookup_of_not_mem unlisted] at written

end Kept

/-- What is kept of the members gives the fields what they are to hold. The names differ, so no
member answers for the field of another. -/
theorem Fits.holds_of_kept {fields : List Field} {members : Slots} {holds : Slots → Prop}
    (fits : Fits fields members holds) (distinct : (fields.map Field.name).Nodup) (slots : Slots)
    (kept : ∀ key ∈ fields.map Field.name, Kept members slots key) : holds slots := by
  induction fits with
  | nil => trivial
  | needs name recovers rest ih =>
      rw [List.map_cons, List.nodup_cons] at distinct
      obtain ⟨other, found, reordered⟩ := (kept name.toList List.mem_cons_self).of_head
      constructor
      · simp only [Slots.required, found]
        exact recovers other reordered
      · refine ih distinct.2 fun key among => (kept key (List.mem_cons_of_mem _ among)).of_tail ?_
        rintro rfl
        exact distinct.1 among
  | takes name default recovers rest ih =>
      rw [List.map_cons, List.nodup_cons] at distinct
      obtain ⟨other, found, reordered⟩ := (kept name.toList List.mem_cons_self).of_head
      constructor
      · simp only [Slots.defaulted, found]
        exact recovers other reordered
      · refine ih distinct.2 fun key among => (kept key (List.mem_cons_of_mem _ among)).of_tail ?_
        rintro rfl
        exact distinct.1 among
  | omits decoder name default rest ih =>
      rw [List.map_cons, List.nodup_cons] at distinct
      have unlisted := fun among => distinct.1 (rest.keys_sublist.mem among)
      constructor
      · simp only [Slots.defaulted, (kept name.toList List.mem_cons_self).of_unlisted unlisted]
      · exact ih distinct.2 fun key among => kept key (List.mem_cons_of_mem _ among)

theorem openRecord_of_fits (origin : Origin) (title : String) {fields : List Field} {members : Slots}
    {holds : Slots → Prop} {other : Json} (distinct : (fields.map Field.name).Nodup)
    (fits : Fits fields members holds) (reordered : Reordered (.record members) other) :
    ∃ slots, openRecord origin title fields other = .ok slots ∧ holds slots := by
  have distinctKeys : (members.map Prod.fst).Nodup := distinct.sublist fits.keys_sublist
  obtain ⟨slots, rfl, renewed⟩ := renewed_of_record reordered
  have opened : openMembers fields [] (slots.map fun (key, value) => (some key, value)) = .ok slots := by
    apply openMembers_of_known fields [] slots
    · intro key value among
      obtain ⟨first, within, same⟩ := renewed.values key value among
      obtain ⟨field, declared, rfl, checked⟩ := fits.field_of_mem within
      exact ⟨field, find_name distinct declared, checked value same⟩
    · exact renewed.keys.nodup_iff.mpr distinctKeys
  have complete : checkMissing slots fields = .ok () := by
    have filled : fields.find? (fun field => field.required && !slots.any (·.1 == field.name)) = none := by
      rw [List.find?_eq_none]
      intro field among
      cases required : field.required with
      | false => simp
      | true =>
          have key := renewed.keys.mem_iff.mpr (fits.key_of_required among required)
          obtain ⟨slot, within, same⟩ := List.mem_map.mp key
          have present : slots.any (·.1 == field.name) = true :=
            List.any_eq_true.mpr ⟨slot, within, beq_iff_eq.mpr same⟩
          simp [present]
    rw [checkMissing, filled]
  refine ⟨slots, ?_, fits.holds_of_kept distinct slots fun key _ => renewed.kept distinctKeys key⟩
  simp only [record, openRecord, opened, bind, Except.bind, complete]
  rfl

end Json

open Json (Origin Field Recovers Reordered Fits decodeList decodeOptional recovers_text recovers_bool
  recovers_list openRecord_of_fits)

namespace Json.Fits

variable {fields : List Field} {members : Slots} {holds : Slots → Prop} {α : Type} {decoder : Decoder α}
  {encode : α → Json}

theorem optional (name : String) (value : Option α)
    (each : ∀ present, Recovers (decodeOptional decoder) (encode present) (some present))
    (rest : Fits fields members holds) :
    Fits (.takes name (decodeOptional decoder) :: fields)
      (optionalMember name (value.map encode) ++ members)
      fun slots => slots.defaulted name none (decodeOptional decoder) = .ok value ∧ holds slots := by
  cases value with
  | none => exact .omits _ name none rest
  | some present => exact .takes name none (each present) rest

private theorem list (name : String) (values : List α)
    (each : Recovers (decodeList decoder) (.list (values.map encode)) values)
    (rest : Fits fields members holds) :
    Fits (.takes name (decodeList decoder) :: fields) (listMember name (values.map encode) ++ members)
      fun slots => slots.defaulted name [] (decodeList decoder) = .ok values ∧ holds slots := by
  cases values with
  | nil => exact .omits _ name [] rest
  | cons first others => exact .takes name [] each rest

end Json.Fits

namespace TypeExpr

private theorem items_of_texts (texts : List Text) (others : List Json)
    (reordered : Json.ReorderedItems (texts.map .string) others) : others = texts.map .string := by
  induction texts generalizing others with
  | nil =>
      cases reordered
      rfl
  | cons text rest ih =>
      cases reordered with
      | cons first remaining =>
          cases first
          rw [ih _ remaining, List.map_cons]

private theorem readableItems_texts (texts : List Text) :
    Json.readableItems (texts.map .string) = true := by
  induction texts with
  | nil => rfl
  | cons text rest ih => exact ih

private theorem nestingItems_texts (texts : List Text) : Json.nestingItems (texts.map .string) = 0 := by
  induction texts with
  | nil => rfl
  | cons text rest ih =>
      rw [List.map_cons, Json.nestingItems, ih]
      rfl

private theorem ofJson_texts (origin : Origin) (level : Nat) (shallow : level < nestingLimit)
    (texts : List Text) : ofJson origin level (.list (texts.map .string)) = .ok (.union texts) := by
  have read : Json.decodeItems Json.decodeText (texts.map .string) = .ok texts :=
    Json.decodeItems_of_reordered texts (fun text _ => recovers_text text) _ (Json.reorderedItems_refl _)
  have within : ¬ nestingLimit < level + (Json.nestingItems (texts.map .string) + 1) := by
    rw [nestingItems_texts]
    omega
  simp only [Json.list, ofJson, Json.readable, readableItems_texts, Json.nesting, within, read]
  simp

private theorem recovers (origin : Origin) (level : Nat) (shallow : level < nestingLimit) (type : TypeExpr) :
    Recovers (ofJson origin level) type.toJson type := by
  intro other reordered
  cases type with
  | one text =>
      cases reordered
      rfl
  | union texts =>
      cases reordered with
      | same => exact ofJson_texts origin level shallow texts
      | array ended each =>
          cases items_of_texts texts _ each
          exact ofJson_texts origin level shallow texts

theorem recovers_optional (origin : Origin) (level : Nat) (shallow : level < nestingLimit)
    (type : TypeExpr) :
    Recovers (decodeOptional (ofJson origin level)) type.toJson (some type) := by
  apply (recovers origin level shallow type).optional
  cases type <;> exact fun same => by cases same

end TypeExpr

theorem recovers_optional_text (text : Text) :
    Recovers (decodeOptional Json.decodeText) (.string text) (some text) :=
  (recovers_text text).optional fun same => by cases same

theorem Visibility.recovers (origin : Origin) (visibility : Visibility) :
    Recovers (ofJson origin) visibility.toJson visibility := by
  intro other reordered
  cases visibility <;> cases reordered <;> rfl

private theorem ArgumentSpec.recovers (origin : Origin) (level : Nat) (shallow : level + 1 < nestingLimit)
    (spec : ArgumentSpec) : Recovers (ofJson origin level) spec.toJson spec := by
  intro other reordered
  have typeRead := TypeExpr.recovers_optional origin (level + 1) shallow
  have fits := Fits.needs "name" (recovers_text spec.name)
    (.optional "type" spec.type typeRead (.optional "default" spec.default recovers_optional_text .nil))
  rw [List.append_nil] at fits
  obtain ⟨slots, opened, name, type, default, -⟩ :=
    openRecord_of_fits origin "ArgumentSpec" (by simp [Field.needs, Field.takes]) fits reordered
  simp only [ofJson, opened, bind, Except.bind, name, type, default]
  rfl

theorem recovers_arguments (origin : Origin) (level : Nat) (shallow : level + 1 < nestingLimit)
    (specs : List ArgumentSpec) :
    Recovers (decodeList (ArgumentSpec.ofJson origin level)) (.list (specs.map ArgumentSpec.toJson)) specs :=
  recovers_list specs fun spec _ => spec.recovers origin level shallow

private theorem PropertySpec.recovers (origin : Origin) (level : Nat) (shallow : level + 1 < nestingLimit)
    (spec : PropertySpec) : Recovers (ofJson origin level) spec.toJson spec := by
  intro other reordered
  have typeRead := TypeExpr.recovers_optional origin (level + 1) shallow
  have fits := Fits.needs "name" (recovers_text spec.name)
    (.optional "type" spec.type typeRead
      (.takes "read" false (recovers_bool spec.read)
        (.takes "write" false (recovers_bool spec.write)
          (.takes "comment" [] (recovers_text spec.comment) .nil))))
  rw [toJson, List.append_assoc] at reordered
  obtain ⟨slots, opened, name, type, read, write, comment, -⟩ :=
    openRecord_of_fits origin "PropertySpec" (by simp [Field.needs, Field.takes]) fits reordered
  simp only [ofJson, opened, bind, Except.bind, name, type, read, write, comment]
  rfl

private theorem MethodSpec.recovers (origin : Origin) (level : Nat) (shallow : level + 3 < nestingLimit)
    (spec : MethodSpec) : Recovers (ofJson origin level) spec.toJson spec := by
  intro other reordered
  have argumentsRead := recovers_arguments origin (level + 2) shallow spec.arguments
  have typeRead := TypeExpr.recovers_optional origin (level + 1) (by omega)
  have fits := Fits.needs "name" (recovers_text spec.name)
    (.takes "arguments" [] argumentsRead
      (.optional "return" spec.returns typeRead
        (.takes "static" false (recovers_bool spec.isStatic)
          (.takes "comment" [] (recovers_text spec.comment) .nil))))
  rw [toJson, List.append_assoc] at reordered
  obtain ⟨slots, opened, name, arguments, returns, isStatic, comment, -⟩ :=
    openRecord_of_fits origin "MethodSpec" (by simp [Field.needs, Field.takes]) fits reordered
  simp only [ofJson, opened, bind, Except.bind, name, arguments, returns, isStatic, comment]
  rfl

private theorem DeclaredPropertySpec.recovers (origin : Origin) (level : Nat)
    (shallow : level + 1 < nestingLimit) (spec : DeclaredPropertySpec) :
    Recovers (ofJson origin level) spec.toJson spec := by
  intro other reordered
  have typeRead := TypeExpr.recovers_optional origin (level + 1) shallow
  have fits := Fits.needs "name" (recovers_text spec.name)
    (.optional "type" spec.type typeRead
      (.optional "default" spec.default recovers_optional_text
        (.takes "static" false (recovers_bool spec.isStatic)
          (.takes "comment" [] (recovers_text spec.comment)
            (.takes "visibility" .everyone (spec.visibility.recovers origin) .nil)))))
  rw [toJson, List.append_assoc, List.append_assoc] at reordered
  obtain ⟨slots, opened, name, type, default, isStatic, comment, visibility, -⟩ :=
    openRecord_of_fits origin "DeclaredPropertySpec" (by simp [Field.needs, Field.takes]) fits reordered
  simp only [ofJson, opened, bind, Except.bind, name, type, default, isStatic, comment, visibility]
  rfl

private theorem DeclaredMethodSpec.recovers (origin : Origin) (level : Nat)
    (shallow : level + 3 < nestingLimit) (spec : DeclaredMethodSpec) :
    Recovers (ofJson origin level) spec.toJson spec := by
  intro other reordered
  have argumentsRead := recovers_arguments origin (level + 2) shallow spec.arguments
  have typeRead := TypeExpr.recovers_optional origin (level + 1) (by omega)
  have fits := Fits.needs "name" (recovers_text spec.name)
    (.takes "arguments" [] argumentsRead
      (.optional "return" spec.returns typeRead
        (.takes "static" false (recovers_bool spec.isStatic)
          (.takes "comment" [] (recovers_text spec.comment)
            (.takes "visibility" .everyone (spec.visibility.recovers origin)
              (.takes "body" [] (recovers_text spec.body) .nil))))))
  rw [toJson, List.append_assoc] at reordered
  obtain ⟨slots, opened, name, arguments, returns, isStatic, comment, visibility, body, -⟩ :=
    openRecord_of_fits origin "DeclaredMethodSpec" (by simp [Field.needs, Field.takes]) fits reordered
  simp only [ofJson, opened, bind, Except.bind, name, arguments, returns, isStatic, comment, visibility, body]
  rfl

private theorem ClassTarget.recovers (origin : Origin) (level : Nat) (shallow : level + 5 < nestingLimit)
    (target : ClassTarget) : Recovers (ofJson origin level) target.toJson target := by
  intro other reordered
  have propertiesRead := recovers_list target.properties fun spec _ =>
    spec.recovers origin (level + 2) (by omega)
  have methodsRead := recovers_list target.methods fun spec _ =>
    spec.recovers origin (level + 2) (by omega)
  have declaredPropertiesRead := recovers_list target.declaredProperties fun spec _ =>
    spec.recovers origin (level + 2) (by omega)
  have declaredMethodsRead := recovers_list target.declaredMethods fun spec _ =>
    spec.recovers origin (level + 2) (by omega)
  have fits := Fits.needs "class" (recovers_text target.className)
    (.needs "file" (recovers_text target.file)
      (.list "properties" target.properties propertiesRead
        (.list "methods" target.methods methodsRead
          (.list "declaredProperties" target.declaredProperties declaredPropertiesRead
            (.list "declaredMethods" target.declaredMethods declaredMethodsRead .nil)))))
  rw [List.append_nil] at fits
  rw [toJson, List.append_assoc, List.append_assoc, List.append_assoc] at reordered
  obtain ⟨slots, opened, className, file, properties, methods, declaredProperties, declaredMethods, -⟩ :=
    openRecord_of_fits origin "ClassTarget" (by simp [Field.needs, Field.takes]) fits reordered
  simp only [ofJson, opened, bind, Except.bind, className, file, properties, methods, declaredProperties,
    declaredMethods]
  rfl

namespace Config

private theorem recovers (origin : Origin) (config : Config) : Recovers (ofJson origin) config.toJson config := by
  intro other reordered
  have classesRead := recovers_list config.classes fun target _ => target.recovers origin 2 (by decide)
  have fits := Fits.takes "sourceRoot" defaultSourceRoot (recovers_text config.sourceRoot)
    (.takes "reset" false (recovers_bool config.reset)
      (.takes "overwrite" false (recovers_bool config.overwrite)
        (.takes "classes" [] classesRead .nil)))
  obtain ⟨slots, opened, sourceRoot, reset, overwrite, classes, -⟩ :=
    openRecord_of_fits origin "Config" (by simp [Field.takes]) fits reordered
  simp only [ofJson, opened, bind, Except.bind, sourceRoot, reset, overwrite, classes]
  rfl

/-- A configuration is read back from the value it is written as, whether the value stands in memory
or in a text, and in every order of its members. -/
theorem ofJson_toJson (config : Config) (origin : Origin) :
    ofJson origin config.toJson = .ok config ∧
      ∀ json, Reordered config.toJson json → ofJson origin json = .ok config :=
  ⟨recovers origin config config.toJson (.same config.toJson), recovers origin config⟩

end Config
end MemberDoc
