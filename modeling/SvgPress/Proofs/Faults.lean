import Mathlib.Data.List.Forall2

/-!
Computations that can fail. Of several in a row, the first that fails ends them all, and its fault
is the fault of the whole. Where there is nothing to be told about a failure, all of them have to
succeed.
-/

namespace SvgPress

variable {ε α β γ : Type}

theorem bind_ok {x : Except ε α} {f : α → Except ε β} {b : β} (h : x >>= f = .ok b) :
    ∃ a, x = .ok a ∧ f a = .ok b := by
  cases x with
  | error fault => cases h
  | ok a => exact ⟨a, rfl, h⟩

/-- A computation that came to a result is followed by what depends on it. -/
theorem bind_of_ok {x : Except ε α} {a : α} (h : x = .ok a) (f : α → Except ε β) :
    x >>= f = f a := by
  rw [h]
  rfl

theorem map_ok {x : Except ε α} {f : α → β} {b : β} (h : x.map f = .ok b) :
    ∃ a, x = .ok a ∧ f a = b := by
  cases x with
  | error fault => cases h
  | ok a => exact ⟨a, rfl, Except.ok.inj h⟩

variable {f : α → Except ε β} {xs : List α}

theorem map_all_cons_ok {x : α} {b : β} (hx : f x = .ok b) (xs : List α) :
    (x :: xs).mapM f = (xs.mapM f).map (b :: ·) := by
  rw [List.mapM_cons, hx]
  rfl

theorem map_all_ok (h : ∀ x ∈ xs, ∃ b, f x = .ok b) : ∃ bs, xs.mapM f = .ok bs := by
  induction xs with
  | nil => exact ⟨[], rfl⟩
  | cons x xs ih =>
      obtain ⟨b, hx⟩ := h x List.mem_cons_self
      obtain ⟨bs, hxs⟩ := ih fun y hy => h y (List.mem_cons_of_mem x hy)
      exact ⟨b :: bs, by rw [map_all_cons_ok hx, hxs]; rfl⟩

theorem forall₂_of_map_all {bs : List β} (h : xs.mapM f = .ok bs) :
    List.Forall₂ (fun x b => f x = .ok b) xs bs := by
  induction xs generalizing bs with
  | nil =>
      cases h
      exact .nil
  | cons x xs ih =>
      rw [List.mapM_cons] at h
      obtain ⟨b, hx, h⟩ := bind_ok h
      obtain ⟨rest, hxs, h⟩ := bind_ok h
      cases h
      exact .cons hx (ih hxs)

/-- The items up to the first that fails count for nothing. -/
theorem map_all_error {before after : List α} {x : α} {fault : ε}
    (hbefore : ∀ y ∈ before, ∃ b, f y = .ok b) (hx : f x = .error fault) :
    (before ++ x :: after).mapM f = .error fault := by
  induction before with
  | nil =>
      rw [List.nil_append, List.mapM_cons, hx]
      rfl
  | cons y before ih =>
      obtain ⟨b, hy⟩ := hbefore y List.mem_cons_self
      rw [List.cons_append, map_all_cons_ok hy,
        ih fun z hz => hbefore z (List.mem_cons_of_mem y hz)]
      rfl

/-- What does not change from an item to its result does not change in the whole list. -/
theorem map_eq_of_map_all {bs : List β} {key : α → γ} {key' : β → γ}
    (hkey : ∀ x b, f x = .ok b → key' b = key x) (h : xs.mapM f = .ok bs) :
    bs.map key' = xs.map key := by
  have hall := forall₂_of_map_all h
  clear h
  induction hall with
  | nil => rfl
  | cons hx _ ih => rw [List.map_cons, List.map_cons, hkey _ _ hx, ih]

section Options

variable {f : α → Option β} {xs : List α} {ys : List β}

theorem map_option_eq_some_iff :
    xs.mapM f = some ys ↔ List.Forall₂ (fun x y => f x = some y) xs ys := by
  induction xs generalizing ys with
  | nil =>
      rw [List.mapM_nil, List.forall₂_nil_left_iff]
      exact Option.some_inj.trans eq_comm
  | cons x xs ih =>
      rw [List.mapM_cons, List.forall₂_cons_left_iff]
      simp only [Option.bind_eq_bind, Option.bind_eq_some_iff, ih, Option.pure_def,
        Option.some.injEq]
      constructor
      · rintro ⟨y, hy, rest, hrest, rfl⟩
        exact ⟨y, rest, hy, hrest, rfl⟩
      · rintro ⟨y, rest, hy, hrest, rfl⟩
        exact ⟨y, hy, rest, hrest, rfl⟩

theorem map_option_isSome_iff : (xs.mapM f).isSome ↔ ∀ x ∈ xs, (f x).isSome := by
  induction xs with
  | nil => simp
  | cons x xs ih =>
      rw [List.mapM_cons, List.forall_mem_cons, ← ih]
      cases f x <;> cases xs.mapM f <;> simp

theorem map_option_map (g : β → γ) (xs : List α) :
    (xs.mapM fun x => (f x).map g) = (xs.mapM f).map (List.map g) := by
  induction xs with
  | nil => rfl
  | cons x xs ih =>
      rw [List.mapM_cons, List.mapM_cons, ih]
      cases f x <;> cases xs.mapM f <;> rfl

theorem mem_of_map_option (h : xs.mapM f = some ys) : ∀ y ∈ ys, ∃ x ∈ xs, f x = some y := by
  have hall := map_option_eq_some_iff.mp h
  clear h
  induction hall with
  | nil => exact fun y hy => absurd hy List.not_mem_nil
  | cons hx _ ih =>
      rw [List.forall_mem_cons]
      refine ⟨⟨_, List.mem_cons_self, hx⟩, fun y hy => ?_⟩
      obtain ⟨x, hmem, hread⟩ := ih y hy
      exact ⟨x, List.mem_cons_of_mem _ hmem, hread⟩

theorem filter_map_of_map_option (h : xs.mapM f = some ys) : xs.filterMap f = ys := by
  have hall := map_option_eq_some_iff.mp h
  clear h
  induction hall with
  | nil => rfl
  | cons hx _ ih => rw [List.filterMap_cons, hx, ih]

end Options

end SvgPress
