import StackScript.Proofs.Compile.Equality
import StackScript.Proofs.Meaning.Growth
import StackScript.Proofs.Number.Parts

/-!
# Numbers as keys

A number that is the key of a property in an object is written as text when the object is compiled,
and a number that an object is indexed by is written as text when the code is run. The two texts are
the same for every finite number but the negative zero, whose sign only the machine writes. So what
is stored under a number is found under the number again, unless the number is the negative zero.
-/

namespace StackScript

/-! ## Texts -/

/-- The zero with a sign, which is written without it as the key of a property. -/
def Number.negativeZero : Float := Float.ofBits 0x8000000000000000

theorem Number.eq_negativeZero_of_view {n : Float} {e : Int}
    (view : Number.view n = .finite true 0 e) :
    n = Number.negativeZero := by
  have least : e = leastExponent := (stored_of_view view).normal.resolve_left (by decide)
  rw [eq_packed_of_view view, least]
  rfl

/-- As a key and as an index a number has the same text, and only the negative zero has not. -/
theorem PropertyKey.text_number_eq_toKey_iff {n : Float} (finite : Number.isFinite n = true) :
    (PropertyKey.number n).text = (Value.number n).toKey ↔ n ≠ Number.negativeZero := by
  constructor
  · rintro same rfl
    exact absurd same (by decide)
  · intro signed
    cases view : Number.view n with
    | nan => simp [Number.isFinite, view] at finite
    | infinite negative => simp [Number.isFinite, view] at finite
    | finite negative mantissa exponent =>
      by_cases zero : mantissa = 0
      · subst zero
        cases negative with
        | true => exact absurd (Number.eq_negativeZero_of_view view) signed
        | false =>
          have isZero : Number.isZero n = true := by simp [Number.isZero, view]
          rw [text_of_isZero isZero, Value.toKey, Number.Style.text, view]
          exact (by decide : "0" = "" ++ Number.Style.listing.decimal ⟨0, 0⟩)
      · have isZero : Number.isZero n = false := by simpa [Number.isZero, view] using zero
        simp [PropertyKey.text, Value.toKey, view, isZero]

/-! ## Properties -/

theorem Bindings.get?_set (b : Bindings) (key : String) (value : Value) :
    (b.set key value).get? key = some value := by
  induction b with
  | nil => simp [set, get?]
  | cons entry rest ih =>
    rcases entry with ⟨k, v⟩
    rw [set]
    by_cases same : k = key
    · rw [if_pos same]
      simp [get?]
    · rw [if_neg same]
      have other : (key == k) = false := by simpa using Ne.symm same
      rw [get?, List.lookup_cons, other]
      exact ih

/-- A property that has been set has the value that it has been given. -/
theorem Machine.property_of_setProperty_eq_ok {m m' : Machine} {id : Nat} {key : String}
    {value : Value} (done : m.setProperty id key value = .ok m') :
    m'.property (.object id) key = .ok value := by
  unfold setProperty at done
  split at done
  · next there =>
    cases done
    have found : (m.objects.modify id fun b => b.set key value)[id]? =
        some ((m.objects[id]).set key value) := by
      simp [Array.getElem_modify, there]
    rw [property, object, found]
    exact congrArg Except.ok (congrArg (Option.getD · .undefined) (Bindings.get?_set _ key value))
  · cases done

/-! ## Reading back -/

/-- An object with a number as its only key, indexed by the number. -/
def Expression.readBack (n : Float) (value : Expression) : Expression :=
  .index (.object [⟨.number n, value⟩]) (.literal (.number n))

open Evaluate

variable {n : Float} {value : Expression} {m m₁ m₂ : Machine} {w : Value}

theorem eval_object_single {key : PropertyKey} (done : value.eval (m.allocate []) = .ok w m₁)
    (stored : m₁.setProperty m.objects.size key.text w = .ok m₂) :
    (Expression.object [⟨key, value⟩]).eval m = .ok (.object m.objects.size) m₂ := by
  have store : setProperty m.objects.size key.text w m₁ = .ok () m₂ := by
    change (lift (m₁.setProperty m.objects.size key.text w) >>= set : Evaluate Unit) m₁ = _
    rw [stored]
    rfl
  have properties : evalProperties m.objects.size [⟨key, value⟩] (m.allocate []) = .ok () m₂ := by
    rw [evalProperties, bind_of_eq_ok done, bind_of_eq_ok store]
    rfl
  change (evalProperties m.objects.size [⟨key, value⟩] >>= fun _ =>
    pure (.object m.objects.size) : Evaluate Value) (m.allocate []) = _
  rw [bind_of_eq_ok properties]
  rfl

/-- The object is made before the value is evaluated. It is still there afterwards, takes the value,
    and gives it back. -/
theorem eval_readBack (agree : (PropertyKey.number n).text = (Value.number n).toKey)
    (done : value.eval (m.allocate []) = .ok w m₁)
    (grown : (m.allocate []).objects.size ≤ m₁.objects.size) :
    ∃ m₂, (Expression.readBack n value).eval m = .ok w m₂ := by
  have there : m.objects.size < m₁.objects.size := by
    have size : (m.allocate []).objects.size = m.objects.size + 1 := Array.size_push _
    omega
  obtain ⟨m₂, stored⟩ : ∃ m₂, m₁.setProperty m.objects.size (PropertyKey.number n).text w =
      .ok m₂ :=
    ⟨_, if_pos there⟩
  have object := eval_object_single done stored
  have found : m₂.property (.object m.objects.size) (Value.number n).toKey = .ok w :=
    agree ▸ Machine.property_of_setProperty_eq_ok stored
  refine ⟨m₂, ?_⟩
  rw [Expression.readBack, Expression.eval, bind_of_eq_ok object]
  change lift (m₂.property (.object m.objects.size) (Value.number n).toKey) m₂ = _
  rw [found]
  rfl

namespace CodeUnit

open Running

variable {u u' : CodeUnit} {arena arena' : Arena} {start start' budget : Nat}

/-- What is stored under a finite number, unless it is the negative zero, is read back under it: if
    the code of the value returns, run with one more object in the machine, then the code that
    stores the value and reads it back returns the same, in no more steps than it has
    instructions. -/
theorem run_readBack (finite : Number.isFinite n = true) (signed : n ≠ Number.negativeZero)
    (value : Expression) (m : Machine) (w : Value)
    (accepted : (u.compile (.expression value) arena).result = .ok start)
    (returns : ((entered (m.allocate []) start).run
      (u.compile (.expression value) arena).unit.runnable budget).stop = .outcome (.returned w))
    (accepted' : (u'.compile (.expression (.readBack n value)) arena').result = .ok start') :
    let v := (u'.compile (.expression (.readBack n value)) arena').unit
    ∃ ended steps, steps ≤ v.length - start' ∧
      EndsAfter v.runnable (entered m start') steps ended ∧
      ended.stop = .outcome (.returned w) := by
  intro v
  have real : ((entered (m.allocate []) start).run
      (u.compile (.expression value) arena).unit.runnable budget).stop ≠ .fault .outOfSteps := by
    rw [returns]
    simp
  have same := (adds_of_compile_eq_ok accepted).ended_eq_run (m.allocate []) real
  rw [← same] at returns
  obtain ⟨m₁, done, grown⟩ := value.orderly_eval.exists_of_returned returns
  have agree := (PropertyKey.text_number_eq_toKey_iff finite).mpr signed
  obtain ⟨m₂, read⟩ := eval_readBack agree done grown
  obtain ⟨steps, bound, ends⟩ := (adds_of_compile_eq_ok accepted').endsAfter_of_isStraight
    (Expression.isStraight_segment _) m
  refine ⟨_, steps, bound, ends, ?_⟩
  change ((Expression.readBack n value).eval.ended m).stop = _
  rw [Evaluate.ended, read]

/-- A tenth, whose digits go on for ever in binary. -/
def tenth : Float := Float.ofBits 0x3fb999999999999a

/-- The value is a second object, which is stored in the first one and read back from there. -/
theorem run_readBack_tenth :
    (({} : CodeUnit).compile (.expression (.array [some (.name "a")])) {}).result = .ok 0 ∧
      (({} : CodeUnit).compile (.expression (.readBack tenth (.array [some (.name "a")])))
        {}).result = .ok 0 ∧
      ∃ budget, ((entered { globals := [("a", .null)] } 0).run
        (({} : CodeUnit).compile (.expression (.readBack tenth (.array [some (.name "a")])))
          {}).unit.runnable budget).stop = .outcome (.returned (.object 1)) := by
  have accepted : (({} : CodeUnit).compile (.expression (.array [some (.name "a")])) {}).result =
      .ok 0 := by
    decide +kernel
  have accepted' : (({} : CodeUnit).compile
      (.expression (.readBack tenth (.array [some (.name "a")]))) {}).result = .ok 0 := by
    decide +kernel
  have value : (((Source.expression (.array [some (.name "a")])).eval 0).ended
      (({ globals := [("a", .null)] } : Machine).allocate [])).stop =
        .outcome (.returned (.object 1)) := rfl
  have real : (((Source.expression (.array [some (.name "a")])).eval 0).ended
      (({ globals := [("a", .null)] } : Machine).allocate [])).stop ≠ .fault .outOfSteps := by
    rw [value]
    simp
  obtain ⟨steps, ends⟩ := (adds_of_compile_eq_ok accepted).exists_endsAfter _ real
  have returns := ends.ends steps (Nat.le_refl steps)
  have signed : tenth ≠ Number.negativeZero :=
    fun same => absurd (congrArg Number.isZero same) (by decide)
  obtain ⟨ended, steps', -, ends', returned⟩ := run_readBack (n := tenth) (by decide) signed
    (.array [some (.name "a")]) { globals := [("a", .null)] } (.object 1) accepted
    ((congrArg Ended.stop returns).trans value) accepted'
  refine ⟨accepted, accepted', steps', ?_⟩
  rw [ends'.ends steps' (Nat.le_refl steps'), returned]

/-- Under the negative zero nothing is found, because it is stored without its sign. -/
theorem run_readBack_negativeZero :
    Number.isFinite Number.negativeZero = true ∧
      (∃ budget, ((entered (({} : Machine).allocate []) 0).run
        (({} : CodeUnit).compile (.expression (.literal (.boolean true))) {}).unit.runnable
          budget).stop = .outcome (.returned (.bool true))) ∧
      ∃ budget, (entered {} 0).run
          (({} : CodeUnit).compile
            (.expression (.readBack Number.negativeZero (.literal (.boolean true))))
              {}).unit.runnable budget =
        ⟨.outcome (.returned .undefined), { objects := #[[("0", .bool true)]] }⟩ := by
  have accepted : (({} : CodeUnit).compile (.expression (.literal (.boolean true))) {}).result =
      .ok 0 := by
    decide +kernel
  have accepted' : (({} : CodeUnit).compile (.expression
      (.readBack Number.negativeZero (.literal (.boolean true)))) {}).result = .ok 0 := by
    decide +kernel
  have value : (Expression.readBack Number.negativeZero (.literal (.boolean true))).eval.ended {} =
      ⟨.outcome (.returned .undefined), { objects := #[[("0", .bool true)]] }⟩ := rfl
  obtain ⟨steps, -, ends⟩ := (adds_of_compile_eq_ok accepted).endsAfter_of_isStraight
    (Expression.isStraight_segment _) (({} : Machine).allocate [])
  obtain ⟨steps', -, ends'⟩ := (adds_of_compile_eq_ok accepted').endsAfter_of_isStraight
    (Expression.isStraight_segment _) {}
  refine ⟨by decide, ⟨steps, ?_⟩, steps', ?_⟩
  · rw [ends.ends steps (Nat.le_refl steps)]
    rfl
  · rw [ends'.ends steps' (Nat.le_refl steps')]
    exact value

end CodeUnit

end StackScript
