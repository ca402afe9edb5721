import Mathlib.Data.Nat.Notation
import Mathlib.Logic.Function.Basic

/-!
# Heaps and their owners

A heap gives out addresses in order and never gives one out again, so a freed address stays free. Owners are names,
each with the address it points at, if any. `Owned` says that they point at different live addresses and that every
live address is pointed at; it is kept when a name takes a new address or frees its own (`Owned.take`, `Owned.drop`).
`Rel` relates two heaps address by address.
-/

/-- What the live addresses hold; `next` is the address given out next. -/
@[ext] structure Heap (β : Type*) where
  next : ℕ
  cells : ℕ → Option β
  fresh : ∀ a, next ≤ a → cells a = none

namespace Heap

variable {β γ κ : Type*} {h : Heap β} {a c : ℕ} {b : β}

def empty : Heap β := ⟨0, fun _ => none, fun _ _ => rfl⟩

/-- The new address is `h.next`. -/
def alloc (h : Heap β) (b : β) : Heap β where
  next := h.next + 1
  cells := Function.update h.cells h.next (some b)
  fresh a ha := by
    rw [Function.update_of_ne (by omega)]
    exact h.fresh a (by omega)

def free (h : Heap β) (a : ℕ) : Heap β where
  next := h.next
  cells := Function.update h.cells a none
  fresh c hc := by
    rcases eq_or_ne c a with rfl | hne
    · exact Function.update_self ..
    · rw [Function.update_of_ne hne]
      exact h.fresh c hc

/-- Leaves a free address free. -/
def write (h : Heap β) (a : ℕ) (b : β) : Heap β where
  next := h.next
  cells := Function.update h.cells a ((h.cells a).map fun _ => b)
  fresh c hc := by
    rcases eq_or_ne c a with rfl | hne
    · rw [Function.update_self, h.fresh c hc]
      rfl
    · rw [Function.update_of_ne hne]
      exact h.fresh c hc

def map (f : β → γ) (h : Heap β) : Heap γ where
  next := h.next
  cells a := (h.cells a).map f
  fresh a ha := by rw [h.fresh a ha, Option.map_none]

@[simp] theorem next_empty : (empty : Heap β).next = 0 := rfl
@[simp] theorem cells_empty : (empty : Heap β).cells a = none := rfl
@[simp] theorem next_alloc : (h.alloc b).next = h.next + 1 := rfl
@[simp] theorem next_free : (h.free a).next = h.next := rfl
@[simp] theorem next_write : (h.write a b).next = h.next := rfl
@[simp] theorem next_map (f : β → γ) : (h.map f).next = h.next := rfl
@[simp] theorem cells_map (f : β → γ) : (h.map f).cells a = (h.cells a).map f := rfl

theorem cells_alloc : (h.alloc b).cells = Function.update h.cells h.next (some b) := rfl

theorem cells_free : (h.free a).cells = Function.update h.cells a none := rfl

theorem cells_write (ha : (h.cells a).isSome) : (h.write a b).cells = Function.update h.cells a (some b) := by
  obtain ⟨b', hb⟩ := Option.isSome_iff_exists.1 ha
  simp only [write, hb, Option.map_some]

theorem write_self (ha : h.cells a = some b) : h.write a b = h := by
  refine Heap.ext rfl ?_
  rw [cells_write (by rw [ha]; rfl), ← ha, Function.update_eq_self]

theorem free_of_none (ha : h.cells a = none) : h.free a = h := by
  refine Heap.ext rfl ?_
  rw [cells_free, ← ha, Function.update_eq_self]

theorem lt_next (ha : (h.cells a).isSome) : a < h.next := by
  by_contra hle
  rw [h.fresh a (Nat.le_of_not_lt hle)] at ha
  exact Bool.false_ne_true ha

theorem isSome_write : ((h.write a b).cells c).isSome = (h.cells c).isSome := by
  rcases eq_or_ne c a with rfl | hne
  · simp [write]
  · simp [write, hne]

/-! ### Mapping -/

/-- What another function makes of the other addresses too. -/
theorem map_write {f g : β → γ} {x : ℕ} (b : β) (hg : ∀ y b', y ≠ x → h.cells y = some b' → g b' = f b') :
    (h.write x b).map g = (h.map f).write x (g b) := by
  refine Heap.ext rfl (funext fun y => ?_)
  rcases eq_or_ne y x with rfl | hne
  · simp only [cells_map, write, Function.update_self, Option.map_map]
    rfl
  · simp only [cells_map, write, Function.update_of_ne hne]
    exact Option.map_congr fun b' hb => hg y b' hne hb

theorem map_alloc {f g : β → γ} (b : β) (hg : ∀ y b', h.cells y = some b' → g b' = f b') :
    (h.alloc b).map g = (h.map f).alloc (g b) := by
  refine Heap.ext rfl (funext fun y => ?_)
  rcases eq_or_ne y h.next with rfl | hne
  · simp [cells_alloc]
  · simp only [cells_map, cells_alloc, next_map, Function.update_of_ne hne]
    exact Option.map_congr fun b' hb => hg y b' hb

theorem map_free {f g : β → γ} {x : ℕ} (hg : ∀ y b', y ≠ x → h.cells y = some b' → g b' = f b') :
    (h.free x).map g = (h.map f).free x := by
  refine Heap.ext rfl (funext fun y => ?_)
  rcases eq_or_ne y x with rfl | hne
  · simp [cells_free]
  · simp only [cells_map, cells_free, Function.update_of_ne hne]
    exact Option.map_congr fun b' hb => hg y b' hne hb

/-! ### Related heaps -/

/-- The same addresses are live, and hold related things. -/
structure Rel (R : β → γ → Prop) (h : Heap β) (k : Heap γ) : Prop where
  next : h.next = k.next
  cells : ∀ a, Option.Rel R (h.cells a) (k.cells a)

namespace Rel

variable {R : β → γ → Prop} {k : Heap γ} {d : γ}

theorem empty : Rel R (empty : Heap β) (Heap.empty : Heap γ) := ⟨rfl, fun _ => .none⟩

theorem alloc (hrel : Rel R h k) (hbd : R b d) : Rel R (h.alloc b) (k.alloc d) := by
  refine ⟨congrArg (· + 1) hrel.next, fun a => ?_⟩
  rw [cells_alloc, cells_alloc, ← hrel.next]
  rcases eq_or_ne a h.next with rfl | hne
  · rw [Function.update_self, Function.update_self]
    exact .some hbd
  · rw [Function.update_of_ne hne, Function.update_of_ne hne]
    exact hrel.cells a

theorem write (hrel : Rel R h k) (hbd : R b d) (x : ℕ) : Rel R (h.write x b) (k.write x d) := by
  refine ⟨hrel.next, fun a => ?_⟩
  simp only [Heap.write]
  rcases eq_or_ne a x with rfl | hne
  · rw [Function.update_self, Function.update_self]
    have hcells := hrel.cells a
    generalize h.cells a = u, k.cells a = v at hcells
    cases hcells with
    | none => exact .none
    | some => exact .some hbd
  · rw [Function.update_of_ne hne, Function.update_of_ne hne]
    exact hrel.cells a

theorem free (hrel : Rel R h k) (x : ℕ) : Rel R (h.free x) (k.free x) := by
  refine ⟨hrel.next, fun a => ?_⟩
  rw [cells_free, cells_free]
  rcases eq_or_ne a x with rfl | hne
  · rw [Function.update_self, Function.update_self]
    exact .none
  · rw [Function.update_of_ne hne, Function.update_of_ne hne]
    exact hrel.cells a

end Rel

/-! ### Owners -/

variable {own : κ → Option ℕ} {x y : κ}

/-- The names point at different live addresses, and every live address is pointed at. -/
structure Owned (own : κ → Option ℕ) (h : Heap β) : Prop where
  live : ∀ x a, own x = some a → (h.cells a).isSome
  alone : ∀ x y a, own x = some a → own y = some a → x = y
  owned : ∀ a, (h.cells a).isSome → ∃ x, own x = some a

namespace Owned

theorem empty : Owned (fun _ : κ => none) (empty : Heap β) := by
  constructor <;> simp

theorem write (hown : Owned own h) (a : ℕ) (b : β) : Owned own (h.write a b) := by
  refine ⟨fun x c hx => ?_, hown.alone, fun c hc => hown.owned c ?_⟩
  · rw [isSome_write]
    exact hown.live x c hx
  · rwa [isSome_write] at hc

/-- Two names that point at one address. -/
theorem not_of_shared (hne : x ≠ y) (hx : own x = some a) (hy : own y = some a) : ¬ Owned own h :=
  fun hown => hne (hown.alone x y a hx hy)

/-- When no name points anywhere, nothing is left. -/
theorem cells_eq_none (hown : Owned own h) (hnone : ∀ x, own x = none) (a : ℕ) : h.cells a = none := by
  by_contra hne
  obtain ⟨x, hx⟩ := hown.owned a (Option.isSome_iff_ne_none.2 hne)
  rw [hnone x] at hx
  cases hx

variable [DecidableEq κ]

/-- A name without an address takes a new one. -/
theorem take (hown : Owned own h) (hx : own x = none) (b : β) :
    Owned (Function.update own x (some h.next)) (h.alloc b) := by
  have hlt : ∀ y a, own y = some a → a < h.next := fun y a hy => lt_next (hown.live y a hy)
  refine ⟨fun y a hy => ?_, fun y z a hy hz => ?_, fun a ha => ?_⟩
  · rcases eq_or_ne y x with rfl | hne
    · rw [Function.update_self] at hy
      cases hy
      simp [cells_alloc]
    · rw [Function.update_of_ne hne] at hy
      rw [cells_alloc, Function.update_of_ne (Nat.ne_of_lt (hlt y a hy))]
      exact hown.live y a hy
  · rcases eq_or_ne y x with rfl | hyx <;> rcases eq_or_ne z y with rfl | hzy
    · rfl
    · rw [Function.update_self] at hy
      rw [Function.update_of_ne hzy] at hz
      cases hy
      exact absurd (hlt z _ hz) (Nat.lt_irrefl _)
    · rfl
    · rw [Function.update_of_ne hyx] at hy
      rcases eq_or_ne z x with rfl | hzx
      · rw [Function.update_self] at hz
        cases hz
        exact absurd (hlt y _ hy) (Nat.lt_irrefl _)
      · rw [Function.update_of_ne hzx] at hz
        exact hown.alone y z a hy hz
  · rcases eq_or_ne a h.next with rfl | hne
    · exact ⟨x, Function.update_self ..⟩
    · rw [cells_alloc, Function.update_of_ne hne] at ha
      obtain ⟨y, hy⟩ := hown.owned a ha
      refine ⟨y, ?_⟩
      rw [Function.update_of_ne, hy]
      rintro rfl
      rw [hx] at hy
      cases hy

/-- A name frees its address. -/
theorem drop (hown : Owned own h) (hx : own x = some a) : Owned (Function.update own x none) (h.free a) := by
  refine ⟨fun y c hy => ?_, fun y z c hy hz => ?_, fun c hc => ?_⟩
  · rcases eq_or_ne y x with rfl | hyx
    · rw [Function.update_self] at hy
      cases hy
    · rw [Function.update_of_ne hyx] at hy
      rw [cells_free, Function.update_of_ne]
      · exact hown.live y c hy
      · rintro rfl
        exact hyx (hown.alone y x c hy hx)
  · rcases eq_or_ne y x with rfl | hyx
    · rw [Function.update_self] at hy
      cases hy
    · rcases eq_or_ne z x with rfl | hzx
      · rw [Function.update_self] at hz
        cases hz
      · rw [Function.update_of_ne hyx] at hy
        rw [Function.update_of_ne hzx] at hz
        exact hown.alone y z c hy hz
  · rcases eq_or_ne c a with rfl | hne
    · rw [cells_free, Function.update_self] at hc
      cases hc
    · rw [cells_free, Function.update_of_ne hne] at hc
      obtain ⟨y, hy⟩ := hown.owned c hc
      refine ⟨y, ?_⟩
      rw [Function.update_of_ne, hy]
      rintro rfl
      rw [hx] at hy
      cases hy
      exact hne rfl

end Owned

end Heap
