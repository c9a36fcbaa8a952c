import DefToC.Syntax.Cursor
import Mathlib.Logic.Basic

/-!
# What a reader gives

`Reading.Gives r a c` says that the reader `r` has read `a` and stands at `c`. It leaves out
the bound on the remaining tokens that the type of a reader carries, so a reader that is put
together from others is opened by rewriting: one lemma for each way to put readers together.
-/

namespace DefToC

namespace Cursor

/-- The cursor in front of one more token. -/
def push (t : Token) (c : Cursor) : Cursor := { c with pending := t :: c.pending }

variable {c : Cursor} {t : Token}

@[simp] theorem current_push : (c.push t).current = t := rfl

@[simp] theorem kind_push : (c.push t).kind = t.kind := rfl

@[simp] theorem advance_push : (c.push t).advance = c := rfl

@[simp] theorem size_push : (c.push t).size = c.size + 1 := rfl

@[simp] theorem pending_push : (c.push t).pending = t :: c.pending := rfl

theorem push_inj {c₁ : Cursor} {t₁ : Token} (h : c.push t = c₁.push t₁) : c = c₁ ∧ t = t₁ :=
  ⟨congrArg advance h, congrArg current h⟩

theorem exists_push (h : c.pending ≠ []) : ∃ c₁ : Cursor, c = c₁.push c.current := by
  obtain ⟨_ | ⟨t, ts⟩, v, s⟩ := c
  · exact absurd rfl h
  · exact ⟨⟨ts, v, s⟩, rfl⟩

/-- A cursor whose token is no end mark stands in front of that token. -/
theorem exists_push_of_kind {k : TokenKind} (h : c.kind = k) (hk : k ≠ .eof) :
    ∃ c₁ : Cursor, c = c₁.push c.current := exists_push (pending_ne_nil h hk)

end Cursor

namespace Reading

variable {α β : Type} {m n : Nat} {c c₁ : Cursor} {a : α} {b : β}

/-- The reader has read `a` and stands at `c`. -/
def Gives (r : Reading α n) (a : α) (c : Cursor) : Prop := ∃ h, r = .ok ⟨a, c, h⟩

theorem Gives.size_lt {r : Reading α n} (h : Gives r a c) : c.size < n := h.1

theorem not_gives_error {f : Failure} : ¬Gives (.error f : Reading α n) a c := by
  rintro ⟨_, h⟩
  cases h

theorem gives_pure {p : Parsed α n} :
    Gives (pure p : Reading α n) a c ↔ a = p.value ∧ c = p.next := by
  constructor
  · rintro ⟨_, h⟩
    obtain rfl := Except.ok.inj h
    exact ⟨rfl, rfl⟩
  · rintro ⟨rfl, rfl⟩
    exact ⟨p.size_lt, rfl⟩

theorem gives_bind {r : Reading α m} {f : Parsed α m → Reading β n} :
    Gives (r >>= f) b c ↔ ∃ a c₁, ∃ h : Gives r a c₁, Gives (f ⟨a, c₁, h.size_lt⟩) b c := by
  constructor
  · intro h
    cases r with
    | error f => exact absurd h not_gives_error
    | ok p => exact ⟨p.value, p.next, ⟨p.size_lt, rfl⟩, h⟩
  · rintro ⟨a, c₁, ⟨_, rfl⟩, h⟩
    exact h

/-- What is given does not depend on the bound. -/
theorem gives_iff_map {r : Reading α n} :
    Gives r a c ↔ r.map (fun p => (p.value, p.next)) = .ok (a, c) := by
  cases r with
  | error f => exact iff_of_false not_gives_error nofun
  | ok p =>
    constructor
    · rintro ⟨_, h⟩
      obtain rfl := Except.ok.inj h
      rfl
    · intro h
      obtain ⟨rfl, rfl⟩ := Prod.mk.inj (Except.ok.inj h)
      exact ⟨p.size_lt, rfl⟩

theorem gives_within {r : Reading α (c₁.size + 1)} {h : c₁.size < n} :
    Gives (r.within h) a c ↔ Gives r a c := by
  rw [gives_iff_map, gives_iff_map]
  cases r <;> rfl

theorem gives_weaken {r : Reading α c₁.size} : Gives r.weaken a c ↔ Gives r a c := by
  rw [gives_iff_map, gives_iff_map]
  cases r <;> rfl

theorem gives_below {r : Reading α c₁.size} {h : c₁.size < n} :
    Gives (r.below h) a c ↔ Gives r a c := by
  rw [below, gives_within, gives_weaken]

theorem gives_here {v : α} : Gives (here c₁ v) a c ↔ a = v ∧ c = c₁ := gives_pure

end Reading

open Reading

namespace Cursor

variable {c c₁ : Cursor} {t : Token} {k : TokenKind}

theorem gives_shift : Gives c.shift t c₁ ↔ c = c₁.push t := by
  unfold shift
  split
  · rename_i h
    refine ⟨fun hg => absurd hg not_gives_error, ?_⟩
    rintro rfl
    cases h
  · rename_i h
    obtain ⟨c₂, hc⟩ := exists_push h
    constructor
    · rintro ⟨_, hg⟩
      obtain ⟨rfl, rfl⟩ := Parsed.mk.inj (Except.ok.inj hg)
      rw [hc]
      rfl
    · rintro rfl
      exact ⟨_, rfl⟩

theorem gives_takeOr {message : String} :
    Gives (c.takeOr k message) t c₁ ↔ t.kind = k ∧ c = c₁.push t := by
  unfold takeOr
  split
  · rename_i h
    rw [gives_shift]
    constructor
    · rintro rfl
      exact ⟨h, rfl⟩
    · exact fun h => h.2
  · rename_i h
    refine ⟨fun hg => absurd hg not_gives_error, ?_⟩
    rintro ⟨hk, rfl⟩
    exact absurd hk h

theorem gives_take : Gives (c.take k) t c₁ ↔ t.kind = k ∧ c = c₁.push t := gives_takeOr

end Cursor

/-- One step of a loop over items with commas between them: behind an item there is a comma and
the loop goes on, or there is the closing token. -/
theorem gives_item {α : Type} {n : Nat} (first : Reading α n) (close : TokenKind)
    (rest : (c : Cursor) → Reading (List α) (c.size + 1)) (message : String)
    {as : List α} {c' : Cursor} :
    Gives (do
      let ⟨a, c₁, h₁⟩ ← first
      if c₁.kind = .comma then
        let ⟨_, c₂, h₂⟩ ← c₁.shift.below h₁
        let ⟨as, c₃, h₃⟩ ← (rest c₂).within h₂
        return ⟨a :: as, c₃, h₃⟩
      else if c₁.kind = close then return ⟨[a], c₁, h₁⟩
      else .error (c₁.unexpectedDetailed message) : Reading (List α) n) as c' ↔
    ∃ a, (∃ c₁ t as', t.kind = .comma ∧ Gives first a (Cursor.push t c₁) ∧
      Gives (rest c₁) as' c' ∧ as = a :: as') ∨
      c'.kind ≠ .comma ∧ c'.kind = close ∧ Gives first a c' ∧ as = [a] := by
  simp only [gives_bind]
  constructor
  · rintro ⟨a, c₁, ha, h⟩
    refine ⟨a, ?_⟩
    split at h
    · rename_i hk
      simp only [gives_bind, gives_below, gives_within, Cursor.gives_shift, gives_pure,
        exists_prop] at h
      obtain ⟨t, c₂, rfl, as', _, has, rfl, rfl⟩ := h
      exact .inl ⟨c₂, t, as', hk, ha, has, rfl⟩
    · rename_i hk
      split at h
      · rename_i hclose
        rw [gives_pure] at h
        obtain ⟨rfl, rfl⟩ := h
        exact .inr ⟨hk, hclose, ha, rfl⟩
      · exact absurd h not_gives_error
  · rintro ⟨a, ⟨c₁, t, as', hk, ha, has, rfl⟩ | ⟨hk, hclose, ha, rfl⟩⟩
    · refine ⟨a, c₁.push t, ha, ?_⟩
      rw [if_pos (by rw [Cursor.kind_push, hk])]
      simp only [gives_bind, gives_below, gives_within, Cursor.gives_shift, gives_pure, exists_prop]
      exact ⟨t, c₁, rfl, as', c', has, rfl, rfl⟩
    · refine ⟨a, c', ha, ?_⟩
      rw [if_neg hk, if_pos hclose]
      exact gives_pure.2 ⟨rfl, rfl⟩

end DefToC
