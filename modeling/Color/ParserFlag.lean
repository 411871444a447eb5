import Color.FailoverJson

set_option autoImplicit false

namespace Color

-- ---- what the four member decoders share ----

theorem buffered_field_keyed (b : BufferedResponse) (p : Parser) : b.field p = p.keyed b b.value := rfl
theorem checkpoint_field_keyed (out : Checkpoint) (p : Parser) : out.field p = p.keyed out out.value := rfl
theorem replay_event_field_keyed (e : ReplayEvent) (p : Parser) : e.field p = p.keyed e e.value := rfl
theorem replay_field_keyed (out : Replay) (p : Parser) : out.field p = p.keyed out out.value := rfl

-- An element of the two arrays is an object read into a fresh record.
def Parser.stored {α β : Type} (p : Parser) (field : β → Parser → Except β (β × Parser)) (fresh : β) (out : α)
    (store : β → α) : Except α (α × Parser) :=
  match p.enclosed (ch '{') (ch '}') field fresh with
  | .error _ => .error out
  | .ok (x, p) => .ok (store x, p)

def decoded {α : Type} (result : Except α (α × Parser)) : Bool × α :=
  match result with
  | .error out => (false, out)
  | .ok (out, p) => (p.ok, out)

theorem checkpoint_element_stored (out : Checkpoint) (p : Parser) :
    out.element p = p.stored BufferedResponse.field ⟨0, [], 0⟩ out (fun b => { out with buffer := out.buffer ++ [b] }) := by
  rw [Checkpoint.element, Parser.stored]
  cases p.enclosed (ch '{') (ch '}') BufferedResponse.field ⟨0, [], 0⟩ <;> rfl

theorem replay_element_stored (out : Replay) (p : Parser) :
    out.element p = p.stored ReplayEvent.field ⟨false, 0, [], 0⟩ out (fun e => { out with events := out.events ++ [e] }) := by
  rw [Replay.element, Parser.stored]
  cases p.enclosed (ch '{') (ch '}') ReplayEvent.field ⟨false, 0, [], 0⟩ <;> rfl

theorem from_json_checkpoint_decoded (s : List UInt8) :
    fromJsonCheckpoint s = decoded (Parser.enclosed ⟨s, true⟩ (ch '{') (ch '}') Checkpoint.field {}) := by
  rw [fromJsonCheckpoint]
  cases Parser.enclosed ⟨s, true⟩ (ch '{') (ch '}') Checkpoint.field {} <;> rfl

theorem from_json_replay_decoded (s : List UInt8) :
    fromJsonReplay s = decoded (Parser.enclosed ⟨s, true⟩ (ch '{') (ch '}') Replay.field {}) := by
  rw [fromJsonReplay]
  cases Parser.enclosed ⟨s, true⟩ (ch '{') (ch '}') Replay.field {} <;> rfl

theorem decoded_true {α : Type} (result : Except α (α × Parser)) (out : α) (accepted : decoded result = (true, out)) :
    ∃ q, result = .ok (out, q) ∧ q.ok = true := by
  cases result with
  | error mid => cases accepted
  | ok pair =>
      have same := Prod.mk.inj accepted
      exact ⟨pair.2, by rw [← same.2], same.1⟩

-- ---- the flag stays down ----

def Fails {α : Type} : Except α (α × Parser) → Prop
  | .error _ => True
  | .ok (_, p) => p.ok = false

theorem fails_decoded {α : Type} (result : Except α (α × Parser)) (fails : Fails result) : (decoded result).1 = false := by
  cases result with
  | error out => rfl
  | ok pair => exact fails

theorem eat_down (p : Parser) (c : UInt8) (down : p.ok = false) : (p.eat c).2.ok = false := by
  rw [Parser.eat]
  split
  · rfl
  · split
    · exact down
    · rfl

theorem parse_string_eaten (p : Parser) (eaten : (p.eat kQuote).2.ok = false) : p.parseString.2.ok = false := by
  rw [Parser.parseString]
  split
  · rename_i q shape
    rw [shape] at eaten
    exact eaten
  · rename_i q shape
    rw [shape] at eaten
    split
    · rfl
    · split
      · exact eaten
      · rfl

theorem parse_string_down (p : Parser) (down : p.ok = false) : p.parseString.2.ok = false :=
  parse_string_eaten p (eat_down p kQuote down)

theorem skip_nested_down (opened close : UInt8) (fuel depth : Nat) (p : Parser) (down : p.ok = false) :
    (Parser.skipNested opened close fuel depth p).ok = false := by
  induction fuel generalizing depth p with
  | zero => cases depth <;> exact down
  | succ fuel ih =>
      cases depth with
      | zero => exact down
      | succ depth =>
          rw [Parser.skipNested]
          split
          · exact down
          · split
            · exact ih _ _ (parse_string_down p down)
            · exact ih _ _ down

theorem skip_value_down (p : Parser) (down : p.ok = false) : p.skipValue.ok = false := by
  rw [Parser.skipValue]
  split
  · rfl
  · split
    · exact parse_string_down p.ws down
    · split
      · exact skip_nested_down _ _ _ _ _ down
      · split
        · exact skip_nested_down _ _ _ _ _ down
        · exact down

theorem members_down {α : Type} (close : UInt8) (item : α → Parser → Except α (α × Parser)) (fuel : Nat) (out : α)
    (p : Parser) (down : p.ok = false) : Fails (Parser.members close item fuel out p) := by
  cases fuel with
  | zero => trivial
  | succ fuel =>
      have stop : ((p.peek close).1 || !(p.peek close).2.ok) = true := by
        have same : (p.peek close).2.ok = false := down
        rw [same]
        exact Bool.or_true _
      rw [Parser.members]
      simp only [stop, if_true]
      exact down

theorem enclosed_eaten {α : Type} (p : Parser) (opened close : UInt8) (item : α → Parser → Except α (α × Parser)) (out : α)
    (eaten : (p.eat opened).2.ok = false) : Fails (p.enclosed opened close item out) := by
  rw [Parser.enclosed]
  split
  · trivial
  · rename_i q shape
    rw [shape] at eaten
    have inner := members_down close item (q.rest.length + 2) out q eaten
    split
    · trivial
    · rename_i result later members
      rw [members] at inner
      exact eat_down later close inner

theorem enclosed_down {α : Type} (p : Parser) (opened close : UInt8) (item : α → Parser → Except α (α × Parser)) (out : α)
    (down : p.ok = false) : Fails (p.enclosed opened close item out) :=
  enclosed_eaten p opened close item out (eat_down p opened down)

theorem buffered_value_down (b : BufferedResponse) (k : List UInt8) (p : Parser) (down : p.ok = false) :
    Fails (b.value k p) := by
  rw [BufferedResponse.value]
  split
  · exact down
  · split
    · exact parse_string_down p down
    · split
      · exact down
      · exact skip_value_down p down

theorem checkpoint_value_down (out : Checkpoint) (k : List UInt8) (p : Parser) (down : p.ok = false) :
    Fails (out.value k p) := by
  rw [Checkpoint.value]
  split
  · exact down
  · split
    · exact down
    · split
      · exact down
      · split
        · exact enclosed_down p (ch '[') (ch ']') Checkpoint.element out down
        · exact skip_value_down p down

theorem replay_event_value_down (e : ReplayEvent) (k : List UInt8) (p : Parser) (down : p.ok = false) :
    Fails (e.value k p) := by
  rw [ReplayEvent.value]
  split
  · exact parse_string_down p down
  · split
    · exact down
    · split
      · exact parse_string_down p down
      · split
        · exact down
        · exact skip_value_down p down

theorem replay_value_down (out : Replay) (k : List UInt8) (p : Parser) (down : p.ok = false) : Fails (out.value k p) := by
  rw [Replay.value]
  split
  · exact down
  · split
    · exact enclosed_down p (ch '[') (ch ']') Replay.element out down
    · exact skip_value_down p down

end Color
