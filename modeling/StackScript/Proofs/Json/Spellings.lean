import Mathlib.Data.List.Forall2
import StackScript.Json.Reader
import StackScript.Proofs.Json.Parsing
import StackScript.Proofs.Number.RoundTrip

/-!
# Spellings

Most things can be written as more than one JSON value: the fields of a record may come in any
order, with others among them, and a field that may be missing can be left out if it is null. A
spelling is the set of values that stand for one thing, each with its nesting: how many arrays and
objects are open at once when it is read. The value of a field that is not known is skipped, and
does not count.

A reader understands a spelling if it gives that thing for each of these values when there is room
for its nesting, and refuses the value when there is not. The readers of trees are cut off at a
height, so that what is understood is stated for values below a given nesting.
-/

namespace StackScript

open Json

/-- The values that stand for one thing, each with its nesting. -/
abbrev Spelling := (value : Json) → (nesting : Nat) → Prop

namespace Spelling

/-- One value only, which is neither an array nor an object. -/
def exactly (simple : Json) : Spelling := fun value nesting => value = simple ∧ nesting = 0

/-- What is absent is null. -/
def null : Spelling := exactly .null

/-- A text is a string with that content. -/
def text (content : String) : Spelling := exactly (.ofString content)

/-- A truth value has its own word. -/
def bool (b : Bool) : Spelling := exactly (.bool b)

/-- A number has the one numeral that is printed for it. -/
def number (x : Float) : Spelling := exactly (.number (Number.Style.tree.text x))

/-- One value for each of the things, and the greatest nesting among them. -/
inductive Each : List Spelling → List Json → Nat → Prop
  | nil : Each [] [] 0
  | cons {item : Spelling} {items : List Spelling} {value : Json} {values : List Json} {d k : Nat} :
      item value d → Each items values k → Each (item :: items) (value :: values) (max d k)

/-- A list of things is the array of one spelling for each. -/
def array (items : List Spelling) : Spelling := fun value nesting =>
  ∃ values k, value = .array values ∧ nesting = k + 1 ∧ Each items values k

/-- A variant without data is its name, or an object with its name as the only key and null as the
    value. -/
inductive Bare (name : String) : Spelling
  | name : Bare name (.ofString name) 0
  | key : Bare name (.record [(name, .null)]) 1

/-- A variant with data is an object with its name as the only key. -/
inductive Tagged (name : String) (data : Spelling) : Spelling
  | mk {payload : Json} {d : Nat} :
      data payload d → Tagged name data (.record [(name, payload)]) (d + 1)

/-! ## Records -/

/-- A field of a record. -/
structure Field where
  name : String
  /-- The field can be left out when it is null. -/
  optional : Bool
  spelling : Spelling

/-- The members of an object that give the fields, of which some may be left out, and the greatest
    nesting among them. -/
inductive Given : List Field → List (String × Json) → Nat → Prop
  | nil : Given [] [] 0
  | keep {field : Field} {fields : List Field} {value : Json} {members : List (String × Json)}
      {d k : Nat} :
      field.spelling value d → Given fields members k →
        Given (field :: fields) ((field.name, value) :: members) (max d k)
  | drop {field : Field} {fields : List Field} {members : List (String × Json)} {k : Nat} :
      field.optional = true →
      field.spelling .null 0 → Given fields members k → Given (field :: fields) members k

/-- A record is the array of its fields, or an object that gives the fields in any order and has
    perhaps other members as well. -/
inductive Record (fields : List Field) : Spelling
  | array {values : List Json} {k : Nat} :
      Each (fields.map (·.spelling)) values k → Record fields (.array values) (k + 1)
  | object {given others : List (String × Json)} {members : List (Option String × Json)} {k : Nat} :
      Given fields given k →
      (∀ member ∈ others, member.1 ∉ fields.map (·.name) ∧ member.2.Writable) →
      members.Perm ((given ++ others).map fun (key, value) => (some key, value)) →
        Record fields (.object members) (k + 1)

/-- A field that has to be there. -/
def field (name : String) (spelling : Spelling) : Field := ⟨name, false, spelling⟩

/-- A field that may be missing or null. -/
def optionalField (name : String) (spelling : Spelling) : Field := ⟨name, true, spelling⟩

@[simp] theorem name_field (name : String) (spelling : Spelling) :
    (field name spelling).name = name := rfl

@[simp] theorem name_optionalField (name : String) (spelling : Spelling) :
    (optionalField name spelling).name = name := rfl

/-! ## Sound spellings -/

/-- All values are JSON, and none has a nesting that is greater than its depth. -/
def Sound (spelling : Spelling) : Prop :=
  ∀ value d, spelling value d → value.Writable ∧ d ≤ value.depth

theorem sound_exactly {simple : Json} (writable : simple.Writable) : (exactly simple).Sound := by
  rintro _ _ ⟨rfl, rfl⟩
  exact ⟨writable, Nat.zero_le _⟩

/-- No item is nested deeper than the items together. -/
theorem Each.sound {items : List Spelling} {values : List Json} {k : Nat} (h : Each items values k)
    (sound : ∀ item ∈ items, item.Sound) :
    (∀ value ∈ values, value.Writable) ∧ k ≤ depthItems values := by
  induction h with
  | nil => exact ⟨by simp, Nat.zero_le _⟩
  | cons here _ ih =>
    obtain ⟨first, others⟩ := List.forall_mem_cons.mp sound
    obtain ⟨writable, le⟩ := first _ _ here
    obtain ⟨writables, les⟩ := ih others
    rw [depthItems]
    exact ⟨List.forall_mem_cons.mpr ⟨writable, writables⟩, max_le_max le les⟩

/-- An array is nested once more than its items. -/
theorem sound_array {items : List Spelling} (sound : ∀ item ∈ items, item.Sound) :
    (array items).Sound := by
  rintro _ _ ⟨values, k, rfl, rfl, each⟩
  obtain ⟨writable, le⟩ := each.sound sound
  rw [depth]
  exact ⟨.array writable, Nat.succ_le_succ le⟩

/-- A variant is one object around its data. -/
theorem depth_variant (name : String) (payload : Json) :
    (Json.record [(name, payload)]).depth = payload.depth + 1 := by
  simp [Json.record, depth, depthMembers]

theorem writable_variant {payload : Json} (writable : payload.Writable) (name : String) :
    (Json.record [(name, payload)]).Writable := by
  refine .object ?_
  simpa using writable

/-- The name of a variant is not nested, and the object with null is nested once. -/
theorem sound_bare (name : String) : (Bare name).Sound := by
  intro value d spelled
  cases spelled with
  | name => exact ⟨.string _, Nat.zero_le _⟩
  | key =>
    rw [depth_variant]
    exact ⟨writable_variant .null name, Nat.le_add_left _ _⟩

/-- A variant is nested once more than its data. -/
theorem Sound.tagged {data : Spelling} (sound : data.Sound) (name : String) :
    (Tagged name data).Sound := by
  rintro _ _ ⟨spelled⟩
  obtain ⟨writable, le⟩ := sound _ _ spelled
  rw [depth_variant]
  exact ⟨writable_variant writable name, Nat.succ_le_succ le⟩

/-- No given member is nested deeper than the members of the object, among which it is. -/
theorem Given.sound {fields : List Field} {given : List (String × Json)} {k m : Nat}
    (h : Given fields given k) (sound : ∀ field ∈ fields, field.spelling.Sound)
    (below : ∀ member ∈ given, member.2.depth ≤ m) :
    (∀ member ∈ given, member.2.Writable) ∧ k ≤ m := by
  induction h with
  | nil => exact ⟨by simp, Nat.zero_le _⟩
  | keep here _ ih =>
    obtain ⟨first, others⟩ := List.forall_mem_cons.mp sound
    obtain ⟨low, lows⟩ := List.forall_mem_cons.mp below
    obtain ⟨writable, le⟩ := first _ _ here
    obtain ⟨writables, les⟩ := ih others lows
    exact ⟨List.forall_mem_cons.mpr ⟨writable, writables⟩, Nat.max_le.mpr ⟨le.trans low, les⟩⟩
  | drop _ _ _ ih => exact ih (List.forall_mem_cons.mp sound).2 below

/-- No member is nested deeper than the members together. -/
theorem depth_le_depthMembers {members : List (Option String × Json)}
    {member : Option String × Json}
    (mem : member ∈ members) : member.2.depth ≤ depthMembers members := by
  induction members with
  | nil => cases mem
  | cons next members ih =>
    rw [depthMembers]
    rcases List.mem_cons.mp mem with rfl | mem
    · exact Nat.le_max_left _ _
    · exact Nat.le_trans (ih mem) (Nat.le_max_right _ _)

/-- A record is nested once more than what gives its fields. -/
theorem sound_record {fields : List Field} (sound : ∀ field ∈ fields, field.spelling.Sound) :
    (Record fields).Sound := by
  intro value d whole
  cases whole with
  | array each =>
    have items : ∀ item ∈ fields.map (·.spelling), Sound item := List.forall_mem_map.mpr sound
    obtain ⟨writable, le⟩ := each.sound items
    rw [depth]
    exact ⟨.array writable, Nat.succ_le_succ le⟩
  | @object _ _ members _ given others order =>
    obtain ⟨writable, le⟩ := given.sound (m := depthMembers members) sound fun member mem => by
      have mem' : (some member.1, member.2) ∈ members :=
        order.mem_iff.mpr (List.mem_map.mpr ⟨member, List.mem_append_left _ mem, rfl⟩)
      exact depth_le_depthMembers mem'
    rw [depth]
    refine ⟨.object ?_, Nat.succ_le_succ le⟩
    intro member mem
    obtain ⟨⟨key, value⟩, named, rfl⟩ := List.mem_map.mp (order.mem_iff.mp mem)
    rcases List.mem_append.mp named with named | named
    · exact writable _ named
    · exact (others _ named).2

end Spelling

/-! ## Readers that understand a spelling -/

namespace Reader

variable {α β γ : Type} {n : Nat} {read : Reader α} {spelling : Spelling} {a : α}

/-- The answer of a reader that understands a value of this nesting. -/
def answer (nesting room : Nat) (a : α) : Except Problem α :=
  if nesting ≤ room then .ok a else .error .invalid

section Answer

variable {d k room : Nat} {b : β}

/-- There is room. -/
theorem answer_of_le (fits : d ≤ room) (a : α) : answer d room a = .ok a :=
  if_pos fits

/-- There is no room. -/
theorem answer_of_lt (deep : room < d) (a : α) : answer d room a = .error .invalid :=
  if_neg (by omega)

@[simp] theorem answer_zero (a : α) : answer 0 room a = .ok a :=
  answer_of_le (Nat.zero_le room) a

/-- What is opened takes up room. -/
@[simp] theorem answer_succ (a : α) : answer (d + 1) (room + 1) a = answer d room a := by
  simp [answer]

/-- What is made of it takes no room. -/
@[simp] theorem map_answer (f : α → β) : (answer d room a).map f = answer d room (f a) := by
  unfold answer
  split <;> rfl

/-- Nor does what follows, if it cannot fail. -/
theorem bind_answer {f : α → Except Problem β} (h : f a = .ok b) :
    (answer d room a).bind f = answer d room b := by
  unfold answer
  split
  · exact h
  · rfl

/-- Two readings, one after the other, need room for both. -/
theorem answer_bind_answer (f : α → β → γ) :
    ((answer d room a).bind fun a => (answer k room b).map fun b => f a b) =
      answer (max d k) room (f a b) := by
  unfold answer
  by_cases first : d ≤ room <;> by_cases second : k ≤ room <;>
    simp [first, second, Except.bind, Except.map]

/-- A reading between two others, which together need room for `k`, needs room for itself. -/
theorem bind_answer_bind {first : Except Problem β} {second : β → Except Problem γ} {c : γ}
    (h : first.bind second = answer k room c) :
    (first.bind fun b => (answer d room a).bind fun a => (second b).map fun c => (some a, c)) =
      answer (max d k) room (some a, c) := by
  cases first with
  | error problem =>
    have refused : answer k room c = .error problem := h.symm
    by_cases fits : k ≤ room
    · rw [answer_of_le fits] at refused
      cases refused
    · have deep : room < max d k := by omega
      rw [answer_of_lt (by omega)] at refused
      cases refused
      exact (answer_of_lt deep _).symm
  | ok b =>
    have last : second b = answer k room c := h
    show ((answer d room a).bind fun a => (second b).map fun c => (some a, c)) = _
    rw [last]
    exact answer_bind_answer fun a c => (some a, c)

end Answer

/-- The spelling is sound, and the reader understands all of it that is not nested `n` times. -/
structure Reads (n : Nat) (read : Reader α) (spelling : Spelling) (a : α) : Prop where
  sound : spelling.Sound
  understands : ∀ value d, spelling value d → d < n → ∀ room, read room value = answer d room a

/-- What is understood up to a nesting is understood up to a smaller one. -/
theorem Reads.mono {m : Nat} (h : Reads n read spelling a) (le : m ≤ n) :
    Reads m read spelling a where
  sound := h.sound
  understands value d spelled small := h.understands value d spelled (by omega)

/-- What is made of something that is understood. -/
theorem Reads.map (h : Reads n read spelling a) (f : α → β) :
    Reads n (map f read) spelling (f a) where
  sound := h.sound
  understands value d spelled small room := by
    rw [Reader.map, h.understands value d spelled small room, map_answer]

/-- A reader of one simple value. -/
theorem reads_exactly {simple : Json} (writable : simple.Writable)
    (found : ∀ room, read room simple = .ok a) : Reads n read (.exactly simple) a where
  sound := Spelling.sound_exactly writable
  understands := by
    rintro _ _ ⟨rfl, rfl⟩ _ room
    rw [found room, answer_zero]

theorem reads_string (content : String) : Reads n string (.text content) content :=
  reads_exactly (.string _) fun _ => rfl

theorem reads_bool (b : Bool) : Reads n bool (.bool b) b :=
  reads_exactly (.bool b) fun _ => rfl

/-- A number is understood if it is read back from its text. -/
theorem reads_number {x : Float} (h : Number.ReadsBack x) : Reads n number (.number x) x := by
  refine reads_exactly (.number h.isNumeral_text) fun room => ?_
  simp [number, h.back, h.finite]

theorem reads_optional_none (read : Reader α) : Reads n (optional read) .null none :=
  reads_exactly .null fun _ => rfl

/-- Null is not among what the reader understands. -/
def RefusesNull (read : Reader α) : Prop :=
  ∀ room, read room .null = .error .invalid

theorem RefusesNull.map (h : RefusesNull read) (f : α → β) : RefusesNull (map f read) := by
  intro room
  rw [Reader.map, h room]
  rfl

/-- Null is no variant. -/
theorem refusesNull_variant (find : String → Option (Variant α)) : RefusesNull (variant find)
  | 0 => rfl
  | _ + 1 => rfl

/-- Null is no record. -/
theorem refusesNull_record {αs : List Type} (fields : Fields αs) : RefusesNull (record fields)
  | 0 => rfl
  | _ + 1 => rfl

/-- A reader that refuses null tells it from everything that it understands. -/
theorem Reads.optional (h : Reads n read spelling a) (refuses : RefusesNull read) :
    Reads n (optional read) spelling (some a) where
  sound := h.sound
  understands value d spelled small room := by
    have found := h.understands value d spelled small
    cases value with
    | null =>
      have flat := (h.sound _ _ spelled).2
      obtain rfl : d = 0 := by simpa [depth] using flat
      have read := found room
      rw [refuses room, answer_zero] at read
      cases read
    | _ => simp only [Reader.optional, found, map_answer]

/-! ## Variants -/

section

variable {find : String → Option (Variant α)} {name : String}

/-- Both forms of a variant without data are understood, the second only if an object may be
    opened. -/
theorem reads_bare (found : find name = some (.bare a)) :
    Reads n (variant find) (.Bare name) a where
  sound := Spelling.sound_bare name
  understands value d spelled small room := by
    cases spelled with
    | name => simp only [variant, Json.ofString, found, answer_zero]
    | key =>
      cases room with
      | zero => rfl
      | succ room =>
        simp only [variant, Json.record, List.map_cons, List.map_nil, found, answer_succ,
          answer_zero]
        rfl

/-- The data of a variant is read in its object, with room for one less. -/
theorem Reads.tagged (h : Reads n read spelling a) (found : find name = some (.data read)) :
    Reads (n + 1) (variant find) (.Tagged name spelling) a where
  sound := h.sound.tagged name
  understands value d spelled small room := by
    obtain @⟨payload, d, spelled⟩ := spelled
    cases room with
    | zero => rfl
    | succ room =>
      have inner := h.understands payload d spelled (by omega) room
      simp only [variant, Json.record, List.map_cons, List.map_nil, found, inner, answer_succ]
      cases answer d room a <;> rfl

end

/-! ## Lists -/

/-- The answers to each item of a list. -/
theorem mapM_eq_answer {items : List Spelling} {as : List α}
    (each : List.Forall₂ (Reads n read) items as) {values : List Json} {k : Nat}
    (spelled : Spelling.Each items values k) (small : k < n) (room : Nat) :
    values.mapM (read room) = answer k room as := by
  induction each generalizing values k with
  | nil =>
    cases spelled
    exact (answer_zero _).symm
  | cons first _ ih =>
    cases spelled with
    | @cons _ _ value values d k here rest =>
      have head := first.understands value d here (by omega) room
      have tail := ih rest (by omega)
      rw [List.mapM_cons, head, tail]
      exact answer_bind_answer List.cons

/-- A spelling of each item of a list. -/
theorem reads_list {items : List Spelling} {as : List α}
    (each : List.Forall₂ (Reads n read) items as) :
    Reads n (list read) (.array items) as where
  sound := by
    refine Spelling.sound_array ?_
    induction each with
    | nil => simp
    | cons first _ ih => exact List.forall_mem_cons.mpr ⟨first.sound, ih⟩
  understands value d spelled small room := by
    obtain ⟨values, k, rfl, rfl, spelled⟩ := spelled
    cases room with
    | zero => rfl
    | succ room =>
      rw [list, mapM_eq_answer each spelled (by omega), answer_succ]

/-! ## Reading records -/

/-- The fields that a reader knows, in their order, with a spelling and the value for each. A field
    that may be missing has the value for which null stands. -/
inductive Fits (n : Nat) : {αs : List Type} → Fields αs → List Spelling.Field → Values αs → Prop
  | nil : Fits n .nil [] ()
  | cons {α : Type} {αs : List Type} {name : String} {read : Reader α} {absent : Option α}
      {optional : Bool}
      {spelling : Spelling} {a : α} {fields : Fields αs} {spelled : List Spelling.Field}
        {values : Values αs} :
      Reads n read spelling a →
      (0 < n → optional = true → spelling .null 0 → absent = some a) →
      Fits n fields spelled values →
      Fits n (.cons name read absent fields) (⟨name, optional, spelling⟩ :: spelled) (a, values)

namespace Fields

variable {αs : List Type} {room : Nat} {name : String} {absent : Option α} {fields : Fields αs}

/-- The members are taken from left to right. -/
theorem takeAll_append (fields : Fields αs) (front back : List (Option String × Json))
    (slots : Slots αs) :
    fields.takeAll room (front ++ back) slots =
      (fields.takeAll room front slots).bind fun slots => fields.takeAll room back slots := by
  induction front generalizing slots with
  | nil => rfl
  | cons member front ih =>
    obtain ⟨key, value⟩ := member
    cases key with
    | none => rfl
    | some key =>
      rw [List.cons_append, takeAll, takeAll]
      cases fields.take room key value slots with
      | error problem => rfl
      | ok slots => exact ih slots

/-- A member with another name is left to the other fields. -/
theorem take_other {key : String} (other : key ≠ name) (value : Json) (slot : Option α)
    (slots : Slots αs) :
    (Fields.cons name read absent fields).take room key value (slot, slots) =
      (fields.take room key value slots).map fun slots => (slot, slots) :=
  if_neg other

/-- Members without a field's name leave it as it is. -/
theorem takeAll_others (read : Reader α) (absent : Option α) (fields : Fields αs) (room : Nat)
    {members : List (Option String × Json)} (others : ∀ member ∈ members, member.1 ≠ some name)
    (slot : Option α) (slots : Slots αs) :
    (Fields.cons name read absent fields).takeAll room members (slot, slots) =
      (fields.takeAll room members slots).map fun slots => (slot, slots) := by
  induction members generalizing slots with
  | nil => rfl
  | cons member members ih =>
    obtain ⟨key, value⟩ := member
    cases key with
    | none => rfl
    | some key =>
      have other : key ≠ name := by
        rintro rfl
        exact others (some key, value) (by simp) rfl
      rw [takeAll, takeAll, take_other other]
      cases fields.take room key value slots with
      | error problem => rfl
      | ok slots => exact ih (fun member mem => others member (List.mem_cons_of_mem _ mem)) slots

/-- The field is read from the one member with its name, and the other fields from the other
    members. -/
theorem takeAll_field {front back : List (Option String × Json)}
    (others : ∀ member ∈ front ++ back, member.1 ≠ some name) (value : Json) (slots : Slots αs) :
    (Fields.cons name read absent fields).takeAll room (front ++ (some name, value) :: back)
        (none, slots) =
      (fields.takeAll room front slots).bind fun between =>
        (read room value).bind fun a =>
          (fields.takeAll room back between).map fun slots => (some a, slots) := by
  have before := takeAll_others read absent fields room
    (fun member mem => others member (List.mem_append_left back mem)) none slots
  rw [takeAll_append, before]
  cases fields.takeAll room front slots with
  | error problem => rfl
  | ok between =>
    have first : (Fields.cons name read absent fields).take room name value (none, between) =
        (read room value).map fun a => (some a, between) := if_pos rfl
    show (Fields.cons name read absent fields).takeAll room ((some name, value) :: back)
        (none, between) = (read room value).bind _
    rw [takeAll, first]
    cases read room value with
    | error problem => rfl
    | ok a =>
      exact takeAll_others read absent fields room
        (fun member mem => others member (List.mem_append_right front mem)) (some a) between

/-- Members that are no field's are skipped. -/
theorem takeAll_nil {members : List (Option String × Json)}
    (skipped : ∀ member ∈ members, member.1.isSome = true ∧ member.2.Writable) :
    Fields.nil.takeAll room members () = .ok () := by
  induction members with
  | nil => rfl
  | cons member members ih =>
    obtain ⟨key, value⟩ := member
    obtain ⟨some, writable⟩ := skipped (key, value) (by simp)
    obtain ⟨key, rfl⟩ := Option.isSome_iff_exists.mp some
    have first : Fields.nil.take room key value () = .ok () := if_pos writable.isSound
    rw [takeAll, first]
    exact ih fun member mem => skipped member (List.mem_cons_of_mem _ mem)

end Fields

section

variable {αs : List Type} {fields : Fields αs} {spelled : List Spelling.Field} {values : Values αs}
  {room : Nat}

/-- Only fields are given. -/
theorem key_of_given {given : List (String × Json)} {k : Nat} (h : Spelling.Given spelled given k)
    {member : String × Json}
    (mem : member ∈ given) : member.1 ∈ spelled.map (·.name) := by
  induction h with
  | nil => cases mem
  | keep _ _ ih =>
    rcases List.mem_cons.mp mem with rfl | mem
    · exact List.mem_cons_self
    · exact List.mem_cons_of_mem _ (ih mem)
  | drop _ _ _ ih => exact List.mem_cons_of_mem _ (ih mem)

/-- The fields are taken out of an object whatever their order, and what is left out is null. If
    there is no room for one of them, none of the others makes up for it. -/
theorem Fits.takeAll (fits : Fits n fields spelled values) (distinct : (spelled.map (·.name)).Nodup)
    {given others : List (String × Json)} {members : List (Option String × Json)} {k : Nat}
    (h : Spelling.Given spelled given k)
    (unknown : ∀ member ∈ others, member.1 ∉ spelled.map (·.name) ∧ member.2.Writable)
    (order : members.Perm ((given ++ others).map fun (key, value) => (some key, value)))
    (small : k < n) :
    ∃ slots, fields.takeAll room members fields.empty = answer k room slots ∧
      fields.close slots = .ok values := by
  induction fits generalizing given members k with
  | nil =>
    cases h
    refine ⟨(), ?_, rfl⟩
    rw [answer_zero]
    refine Fields.takeAll_nil ?_
    intro member mem
    obtain ⟨⟨key, value⟩, other, rfl⟩ := List.mem_map.mp (order.mem_iff.mp mem)
    exact ⟨rfl, (unknown (key, value) other).2⟩
  | @cons α αs name read absent optional spelling a fields spelled values reads missing _ ih =>
    obtain ⟨alone, distinct⟩ := List.nodup_cons.mp distinct
    have unknown' : ∀ member ∈ others, member.1 ∉ spelled.map (·.name) ∧ member.2.Writable := by
      intro member mem
      obtain ⟨new, writable⟩ := unknown member mem
      exact ⟨fun known => new (List.mem_cons_of_mem _ known), writable⟩
    -- no member that is left for the other fields has the name of this one
    have strange {given : List (String × Json)} {k : Nat} (h : Spelling.Given spelled given k)
        (member : Option String × Json)
        (mem : member ∈ (given ++ others).map fun (key, value) => (some key, value)) :
          member.1 ≠ some name := by
      obtain ⟨⟨key, value⟩, named, rfl⟩ := List.mem_map.mp mem
      rintro ⟨rfl⟩
      rcases List.mem_append.mp named with named | named
      · exact alone (key_of_given h named)
      · exact (unknown _ named).1 List.mem_cons_self
    cases h with
    | @keep _ _ value given d k here h =>
      have mem : (some name, value) ∈ members := order.mem_iff.mpr List.mem_cons_self
      obtain ⟨front, back, rfl⟩ := List.append_of_mem mem
      have order :
          (front ++ back).Perm ((given ++ others).map fun (key, value) => (some key, value)) :=
        (List.perm_middle.symm.trans order).cons_inv
      obtain ⟨slots, taken, closed⟩ := ih distinct h unknown' order (by omega)
      refine ⟨(some a, slots), ?_, ?_⟩
      · rw [Fields.empty, Fields.takeAll_field fun member mem =>
          strange h member (order.mem_iff.mp mem), reads.understands value d here (by omega) room]
        rw [Fields.takeAll_append] at taken
        exact bind_answer_bind taken
      · rw [Fields.close, closed]
        rfl
    | drop optional null h =>
      obtain ⟨slots, taken, closed⟩ := ih distinct h unknown' order small
      refine ⟨(none, slots), ?_, ?_⟩
      · rw [Fields.empty, Fields.takeAll_others read absent fields room fun member mem =>
          strange h member (order.mem_iff.mp mem), taken, map_answer]
      · rw [Fields.close, missing (by omega) optional null, closed]
        rfl

/-- The fields are taken one by one out of the array of all. -/
theorem Fits.inOrder (fits : Fits n fields spelled values) {items : List Json} {k : Nat}
    (each : Spelling.Each (spelled.map (·.spelling)) items k) (small : k < n) :
    fields.inOrder room items = answer k room values := by
  induction fits generalizing items k with
  | nil =>
    cases each
    exact (answer_zero _).symm
  | cons reads _ _ ih =>
    cases each with
    | @cons _ _ item items d k here rest =>
      have first := reads.understands item d here (by omega) room
      have others := ih rest (by omega)
      rw [Fields.inOrder, first, others]
      exact answer_bind_answer Prod.mk

/-- All fields have sound spellings. -/
theorem Fits.sound (fits : Fits n fields spelled values) :
    ∀ field ∈ spelled, field.spelling.Sound := by
  induction fits with
  | nil => simp
  | cons reads _ _ ih => exact List.forall_mem_cons.mpr ⟨reads.sound, ih⟩

/-- A record is understood when its fields are. -/
theorem Fits.reads (fits : Fits n fields spelled values) (distinct : (spelled.map (·.name)).Nodup) :
    Reads n (record fields) (.Record spelled) values where
  sound := Spelling.sound_record fits.sound
  understands value d whole small room := by
    cases room with
    | zero => cases whole <;> rfl
    | succ room =>
      cases whole with
      | array each =>
        rw [answer_succ]
        exact fits.inOrder each (by omega)
      | object given others order =>
        obtain ⟨slots, taken, closed⟩ := fits.takeAll distinct given others order (by omega)
        rw [record, taken, answer_succ]
        exact bind_answer closed

/-- A field that has to be there is never left out. -/
theorem Fits.field {name : String} (h : Reads n read spelling a)
    (fits : Fits n fields spelled values) :
    Fits n (Reader.field name read fields) (Spelling.field name spelling :: spelled) (a, values) :=
  .cons h (by simp) fits

/-- A field that is left out has the value for which null stands. -/
theorem Fits.optionalField {name : String} {a : Option α} (h : Reads n (optional read) spelling a)
    (fits : Fits n fields spelled values) :
    Fits n (Reader.optionalField name read fields) (Spelling.optionalField name spelling :: spelled)
      (a, values) := by
  refine .cons h ?_ fits
  intro positive _ null
  have found : Reader.optional read 0 .null = .ok a := h.understands .null 0 null positive 0
  cases found
  rfl

/-- What is made of a record. -/
theorem Fits.map {make : Values αs → α} (fits : Fits n fields spelled values)
    (distinct : (spelled.map (·.name)).Nodup) (made : make values = a) :
    Reads n (Reader.map make (record fields)) (.Record spelled) a :=
  made ▸ (fits.reads distinct).map make

/-- A variant whose data is a record. -/
theorem Fits.variant {find : String → Option (Variant α)} {name : String} {make : Values αs → α}
    (fits : Fits n fields spelled values) (distinct : (spelled.map (·.name)).Nodup)
    (found : find name = Reader.fields fields make) (made : make values = a) :
    Reads (n + 1) (Reader.variant find) (.Tagged name (.Record spelled)) a :=
  (fits.map distinct made).tagged found

end

/-! ## Texts -/

/-- A text in which a value of the spelling is written is understood, if there is room for it. -/
theorem text_of_spelled (h : ∀ n, Reads n read spelling a) {value : Json} {d : Nat}
    (spelled : spelling value d) {text : String}
    (written : Spelled (value.tokens []) text.toList) (limit : Nat) :
    read.text (some limit) text = answer d limit a := by
  have found := (h (d + 1)).understands value d spelled (Nat.lt_succ_self _) limit
  have parsed := ((h 0).sound value d spelled).1.parse_of_spelled written
  rw [Reader.text, parsed]
  show (read limit value).bind _ = _
  rw [found]
  exact bind_answer rfl

end Reader

end StackScript
