import StackScript.Json.Parser
import StackScript.Proofs.Json.Lexing

/-!
# Values in a text

The tokens of a value lead the parser from a place where a value has to come to the place behind
that value, whatever containers are open around it. So a text in which the tokens of a value are
spelled is read as that value, and the text of a value is such a text.
-/

namespace StackScript.Json

/-- Values whose text is JSON: their numbers are numerals. -/
inductive Writable : Json → Prop
  | null : Writable .null
  | bool (value : Bool) : Writable (.bool value)
  | number {spelling : String} : IsNumeral spelling.toList → Writable (.number spelling)
  | string (content : Option String) : Writable (.string content)
  | array {items : List Json} : (∀ item ∈ items, Writable item) → Writable (.array items)
  | object {members : List (Option String × Json)} : (∀ member ∈ members, Writable member.2) →
      Writable (.object members)

theorem soundItems_of_each : {items : List Json} → (∀ item ∈ items, item.isSound = true) →
    soundItems items = true
  | [], _ => rfl
  | item :: items, each => by
    rw [soundItems, each item (by simp), Bool.true_and]
    exact soundItems_of_each fun item mem => each item (List.mem_cons_of_mem _ mem)

theorem soundMembers_of_each : {members : List (Option String × Json)} →
    (∀ member ∈ members, member.2.isSound = true) → soundMembers members = true
  | [], _ => rfl
  | (key, value) :: members, each => by
    rw [soundMembers, each (key, value) (by simp), Bool.true_and]
    exact soundMembers_of_each fun member mem => each member (List.mem_cons_of_mem _ mem)

/-- What can be written was written as JSON. -/
theorem Writable.isSound {value : Json} (h : value.Writable) : value.isSound = true := by
  induction h with
  | null | bool | number | string => rfl
  | array _ ih => exact soundItems_of_each ih
  | object _ ih => exact soundMembers_of_each ih

/-! ## The text of a value -/

/-- Tokens without spaces between them. -/
def spellAll (tokens : List Token) : List Char :=
  tokens.flatMap fun token => token.spell.toList

/-- The printed form is the text of the tokens. -/
theorem toList_render (value : Json) : value.render.toList = spellAll (value.tokens []) := by
  rw [render, toList_foldl_append]
  rfl

/-- The text of tokens is one of their spellings. -/
theorem Proper.spelled {tokens : List Token} (h : Proper tokens) :
    Spelled tokens (spellAll tokens) := by
  induction tokens with
  | nil => exact .nil
  | cons token tokens ih => exact .token h.1.form (ih h.2.2)

/-- Tokens that may follow a value. -/
structure Follow (tokens : List Token) : Prop where
  closes : Closes tokens
  proper : Proper tokens

theorem follow_nil : Follow [] :=
  ⟨nofun, trivial⟩

section

variable {token : Token} {tokens : List Token}

/-- A token that is no number may stand before any other. -/
theorem Proper.cons (h : Proper tokens) (sound : token.Sound)
    (other : ∀ spelling, token ≠ .number spelling) :
    Proper (token :: tokens) := by
  refine ⟨sound, ?_, h⟩
  rintro ⟨spelling, rfl⟩
  exact absurd rfl (other spelling)

theorem Proper.follow (h : Proper tokens)
    (closes : token = .comma ∨ token = .closeArray ∨ token = .closeObject) :
    Follow (token :: tokens) := by
  refine ⟨?_, ?_⟩
  · rintro _ ⟨⟩
    exact closes
  · rcases closes with rfl | rfl | rfl <;> exact h.cons trivial (by simp)

theorem Proper.member (h : Proper tokens) (key : Option String) :
    Proper (.string key :: .colon :: tokens) :=
  have colon : Proper (.colon :: tokens) := h.cons trivial (by simp)
  colon.cons trivial (by simp)

end

/-- The tokens of a value can be told apart. -/
def ProperTokens (value : Json) : Prop :=
  ∀ rest, Follow rest → Proper (value.tokens rest)

/-- The tokens of the items of an array. -/
theorem proper_itemTokens {rest : List Token} (h : Follow rest) : (items : List Json) →
    (∀ item ∈ items, ProperTokens item) → Proper (itemTokens items rest)
  | [], _ => h.proper
  | [item], each => each item (by simp) rest h
  | item :: next :: items, each => by
    have others := proper_itemTokens h (next :: items) fun item mem =>
      each item (List.mem_cons_of_mem _ mem)
    exact each item (by simp) _ (others.follow (.inl rfl))

/-- The tokens of the members of an object. -/
theorem proper_memberTokens {rest : List Token} (h : Follow rest) :
    (members : List (Option String × Json)) →
    (∀ member ∈ members, ProperTokens member.2) → Proper (memberTokens members rest)
  | [], _ => h.proper
  | [(key, value)], each => (each (key, value) (by simp) rest h).member key
  | (key, value) :: next :: members, each => by
    have others := proper_memberTokens h (next :: members) fun member mem =>
      each member (List.mem_cons_of_mem _ mem)
    exact (each (key, value) (by simp) _ (others.follow (.inl rfl))).member key

/-- The tokens of a value may stand before what closes it. -/
theorem Writable.properTokens {value : Json} (h : value.Writable) : ProperTokens value := by
  induction h with
  | null | bool | string =>
    intro rest follow
    exact follow.proper.cons trivial (by simp)
  | number numeral =>
    intro rest follow
    exact ⟨numeral, fun _ => follow.closes, follow.proper⟩
  | array _ ih =>
    intro rest follow
    have items := proper_itemTokens (follow.proper.follow (.inr (.inl rfl))) _ ih
    exact items.cons trivial (by simp)
  | object _ ih =>
    intro rest follow
    have members := proper_memberTokens (follow.proper.follow (.inr (.inr rfl))) _ ih
    exact members.cons trivial (by simp)

theorem Writable.proper {value : Json} (h : value.Writable) : Proper (value.tokens []) :=
  h.properTokens [] follow_nil

/-- The printed form of a value spells its tokens. -/
theorem Writable.spelled_render {value : Json} (h : value.Writable) :
    Spelled (value.tokens []) value.render.toList := by
  rw [toList_render]
  exact h.proper.spelled

/-! ## The way of the parser -/

/-- The tokens of a value lead to the place behind it. -/
def Passes (value : Json) : Prop :=
  ∀ rest frames, (value.tokens rest).foldl step (.atValue frames) =
    rest.foldl step (.after value frames)

/-- A value does not begin with the closing bracket of an array, so that the first item is read like
    any other. -/
theorem foldl_atItems (item : Json) (items : List Json) (rest : List Token) (frames : List Frame) :
    (itemTokens (item :: items) rest).foldl step (.atItems frames) =
      (itemTokens (item :: items) rest).foldl step (.atValue (.array [] :: frames)) := by
  have first (rest : List Token) : (item.tokens rest).foldl step (.atItems frames) =
      (item.tokens rest).foldl step (.atValue (.array [] :: frames)) := by
    cases item <;> simp [tokens, step]
  cases items with
  | nil => exact first rest
  | cons next items => exact first _

/-- The parser passes over the items of an array one by one. -/
theorem foldl_itemTokens {items : List Json} (each : ∀ item ∈ items, Passes item)
    (some : items ≠ [])
    (done : List Json) (rest : List Token) (frames : List Frame) :
    (itemTokens items (.closeArray :: rest)).foldl step (.atValue (.array done :: frames)) =
      rest.foldl step (.after (.array (done.reverse ++ items)) frames) := by
  match items with
  | [] => exact absurd rfl some
  | [item] =>
    rw [itemTokens, each item (by simp)]
    simp [step, stepAfter]
  | item :: next :: items =>
    have others := foldl_itemTokens (fun item mem => each item (List.mem_cons_of_mem _ mem))
      (List.cons_ne_nil next items) (item :: done) rest frames
    rw [itemTokens, each item (by simp)]
    simpa [step, stepAfter] using others

/-- The parser passes over the members of an object one by one. -/
theorem foldl_memberTokens {members : List (Option String × Json)}
    (each : ∀ member ∈ members, Passes member.2)
    (some : members ≠ []) (done : List (Option String × Json)) (rest : List Token)
    (frames : List Frame) :
    (memberTokens members (.closeObject :: rest)).foldl step (.atKey done frames) =
      rest.foldl step (.after (.object (done.reverse ++ members)) frames) := by
  match members with
  | [] => exact absurd rfl some
  | [(key, value)] =>
    rw [memberTokens, List.foldl_cons, List.foldl_cons]
    simp only [step]
    rw [each (key, value) (by simp)]
    simp [step, stepAfter]
  | (key, value) :: next :: members =>
    have others := foldl_memberTokens (fun member mem => each member (List.mem_cons_of_mem _ mem))
      (List.cons_ne_nil next members) ((key, value) :: done) rest frames
    rw [memberTokens, List.foldl_cons, List.foldl_cons]
    simp only [step]
    rw [each (key, value) (by simp)]
    simpa [step, stepAfter] using others

/-- The parser passes over the tokens of a value, and has the value then. -/
theorem Writable.passes {value : Json} (h : value.Writable) : Passes value := by
  induction h with
  | null | bool | string | number =>
    intro rest frames
    rfl
  | @array items _ ih =>
    intro rest frames
    cases items with
    | nil => rfl
    | cons item items =>
      have whole := foldl_itemTokens ih (List.cons_ne_nil item items) [] rest frames
      rw [← foldl_atItems] at whole
      exact whole
  | @object members _ ih =>
    intro rest frames
    cases members with
    | nil => rfl
    | cons member members =>
      exact foldl_memberTokens ih (List.cons_ne_nil member members) [] rest frames

/-- A text in which the tokens of a value are spelled is read as the value, and nothing is left of
    the text. -/
theorem Writable.parse_of_spelled {value : Json} {text : String} (h : value.Writable)
    (spelled : Spelled (value.tokens []) text.toList) : parse text = ⟨value, true⟩ := by
  rw [parse, lex_of_spelled spelled h.proper, h.passes]
  rfl

end StackScript.Json
