import Mathlib.Data.List.Forall2
import Mathlib.Data.List.Perm.Basic
import RecordQuery.Validation.Violation

/-!
# Successful results

A computation in steps succeeds only if every step of it does.

* `bind_eq_ok`, `map_eq_ok`, `mapError_eq_ok`, `bind_eq_error`, `mapError_eq_error`: what the result
  of a composed computation says about its parts.
* `mapM_eq_ok`, `mapM_eq_some`: a list of results comes from a result for each member.
* `mapM_eq_error_iff`: if there is one way to fail, one member that fails is enough.
* `forall_of_append`: lists of results that are put together.
* `ok_mem_of_gather`: what a collection of checks accepts was accepted by one of them;
  `gather_eq_ok`: if none of them refuses anything, it accepts what they do.
* `Matched`: two computations that fail alike or have related results.
* `Paired`: two computations that fail with related errors or have related results; `mapM_perm` says
  so of a list in another order.
-/

namespace RecordQuery

variable {ε α β : Type}

theorem bind_eq_ok {x : Except ε α} {f : α → Except ε β} {b : β} :
    (x >>= f) = .ok b ↔ ∃ a, x = .ok a ∧ f a = .ok b := by
  cases x with
  | error e => simp [bind, Except.bind]
  | ok a => simp [bind, Except.bind]

theorem map_eq_ok {x : Except ε α} {f : α → β} {b : β} :
    x.map f = .ok b ↔ ∃ a, x = .ok a ∧ f a = b := by
  cases x with
  | error e => simp [Except.map]
  | ok a => simp [Except.map]

theorem map_eq_error {x : Except ε α} {f : α → β} {e : ε} : x.map f = .error e ↔ x = .error e := by
  cases x with
  | error e' => simp [Except.map]
  | ok a => simp [Except.map]

theorem mapError_eq_ok {δ : Type} {x : Except ε α} {f : ε → δ} {a : α} :
    x.mapError f = .ok a ↔ x = .ok a := by
  cases x with
  | error e => simp [Except.mapError]
  | ok b => simp [Except.mapError]

theorem bind_eq_error {x : Except ε α} {f : α → Except ε β} {e : ε} :
    (x >>= f) = .error e ↔ x = .error e ∨ ∃ a, x = .ok a ∧ f a = .error e := by
  cases x with
  | error e' => simp [bind, Except.bind]
  | ok a => simp [bind, Except.bind]

theorem mapError_eq_error {δ : Type} {x : Except ε α} {f : ε → δ} {d : δ} :
    x.mapError f = .error d ↔ ∃ e, x = .error e ∧ f e = d := by
  cases x with
  | error e => simp [Except.mapError]
  | ok a => simp [Except.mapError]

theorem pure_eq_ok {a b : α} : (pure a : Except ε α) = .ok b ↔ a = b := by
  simp [pure, Except.pure]

/-- What holds of all that two computations give holds of all that they give together. -/
theorem forall_of_append {x y : Except ε (List α)} {P : α → Prop}
    (hx : ∀ xs, x = .ok xs → ∀ a ∈ xs, P a) (hy : ∀ ys, y = .ok ys → ∀ a ∈ ys, P a) {zs : List α}
    (h : (do return (← x) ++ (← y)) = Except.ok zs) : ∀ a ∈ zs, P a := by
  obtain ⟨xs, hxs, h⟩ := bind_eq_ok.1 h
  obtain ⟨ys, hys, h⟩ := bind_eq_ok.1 h
  rw [pure_eq_ok] at h
  subst h
  exact List.forall_mem_append.2 ⟨hx xs hxs, hy ys hys⟩

theorem exists_ok_of_isOk {x : Except ε α} (h : x.isOk = true) : ∃ a, x = .ok a := by
  cases x with
  | error e => cases h
  | ok a => exact ⟨a, rfl⟩

theorem mapM_eq_ok {f : α → Except ε β} {xs : List α} {ys : List β} :
    xs.mapM f = .ok ys ↔ List.Forall₂ (fun x y => f x = .ok y) xs ys := by
  induction xs generalizing ys with
  | nil =>
    rw [List.mapM_nil, pure_eq_ok]
    constructor
    · rintro rfl
      exact .nil
    · rintro ⟨⟩
      rfl
  | cons x xs ih =>
    rw [List.mapM_cons]
    constructor
    · intro h
      obtain ⟨y, hy, h⟩ := bind_eq_ok.1 h
      obtain ⟨rest, hrest, h⟩ := bind_eq_ok.1 h
      rw [pure_eq_ok] at h
      exact h ▸ .cons hy (ih.1 hrest)
    · rintro (_ | ⟨hy, hrest⟩)
      exact bind_eq_ok.2 ⟨_, hy, bind_eq_ok.2 ⟨_, ih.2 hrest, rfl⟩⟩

theorem exists_mapM_ok {f : α → Except ε β} {xs : List α} (h : ∀ x ∈ xs, ∃ y, f x = .ok y) :
    ∃ ys, xs.mapM f = .ok ys := by
  induction xs with
  | nil => exact ⟨[], rfl⟩
  | cons x xs ih =>
    obtain ⟨y, hy⟩ := h x List.mem_cons_self
    obtain ⟨ys, hys⟩ := ih fun x' hx' => h x' (List.mem_cons_of_mem x hx')
    exact ⟨y :: ys, mapM_eq_ok.2 (.cons hy (mapM_eq_ok.1 hys))⟩

theorem mapM_eq_some {f : α → Option β} {xs : List α} {ys : List β} :
    xs.mapM f = some ys ↔ List.Forall₂ (fun x y => f x = some y) xs ys := by
  induction xs generalizing ys with
  | nil =>
    rw [List.mapM_nil, Option.pure_def, Option.some_inj]
    constructor
    · rintro rfl
      exact .nil
    · rintro ⟨⟩
      rfl
  | cons x xs ih =>
    rw [List.mapM_cons]
    constructor
    · intro h
      obtain ⟨y, hy, h⟩ := Option.bind_eq_some_iff.1 h
      obtain ⟨rest, hrest, h⟩ := Option.bind_eq_some_iff.1 h
      cases h
      exact .cons hy (ih.1 hrest)
    · rintro (_ | ⟨hy, hrest⟩)
      exact Option.bind_eq_some_iff.2 ⟨_, hy, Option.bind_eq_some_iff.2 ⟨_, ih.2 hrest, rfl⟩⟩

/-- Every source has a member in a list of results. -/
theorem exists_of_mem_left {R : α → β → Prop} {xs : List α} {ys : List β}
    (h : List.Forall₂ R xs ys) {x : α} (hx : x ∈ xs) : ∃ y ∈ ys, R x y := by
  induction h with
  | nil => cases hx
  | @cons x' y xs ys hxy _ ih =>
    rcases List.mem_cons.1 hx with rfl | hx
    · exact ⟨y, List.mem_cons_self, hxy⟩
    · obtain ⟨y', hy', hxy'⟩ := ih hx
      exact ⟨y', List.mem_cons_of_mem _ hy', hxy'⟩

/-- Every member of a list of results has a source. -/
theorem exists_of_mem_right {R : α → β → Prop} {xs : List α} {ys : List β}
    (h : List.Forall₂ R xs ys) {y : β} (hy : y ∈ ys) : ∃ x ∈ xs, R x y := by
  induction h with
  | nil => cases hy
  | @cons x y' xs ys hxy _ ih =>
    rcases List.mem_cons.1 hy with rfl | hy
    · exact ⟨x, List.mem_cons_self, hxy⟩
    · obtain ⟨x', hx', hxy'⟩ := ih hy
      exact ⟨x', List.mem_cons_of_mem _ hx', hxy'⟩

/-- Lists whose members come to the same in pairs. -/
theorem forall₂_of_map_eq {α' γ : Type} {R : α → β → Prop} {R' : α' → β → Prop} {f : β → γ}
    {xs : List α} {ys ys' : List β} {xs' : List α'} (h : List.Forall₂ R xs ys)
    (h' : List.Forall₂ R' xs' ys') (heq : ys.map f = ys'.map f) :
    List.Forall₂ (fun x x' => ∃ y y', R x y ∧ R' x' y' ∧ f y = f y') xs xs' := by
  induction h generalizing xs' ys' with
  | nil =>
    cases h' with
    | nil => exact .nil
    | cons => cases heq
  | cons hxy _ ih =>
    cases h' with
    | nil => cases heq
    | cons hxy' hrest =>
      rw [List.map_cons, List.map_cons, List.cons.injEq] at heq
      exact .cons ⟨_, _, hxy, hxy', heq.1⟩ (ih hrest heq.2)

/-- A collection accepts only what one of its checks accepts. -/
theorem ok_mem_of_gather {xs : List (Except Refusal α)} {c : Checked (List α)}
    (h : gather xs = .ok c) {a : α} (ha : a ∈ c.accepted) : .ok a ∈ xs := by
  induction xs generalizing c with
  | nil =>
    simp only [gather, Except.ok.injEq] at h
    subst h
    cases ha
  | cons x xs ih =>
    rcases x with (vs | f) | b
    · simp only [gather] at h
      obtain ⟨rest, hrest, h⟩ := bind_eq_ok.1 h
      rw [pure_eq_ok] at h
      subst h
      exact List.mem_cons_of_mem _ (ih hrest ha)
    · simp [gather] at h
    · simp only [gather] at h
      obtain ⟨rest, hrest, h⟩ := bind_eq_ok.1 h
      rw [pure_eq_ok] at h
      subst h
      rcases List.mem_cons.1 ha with rfl | ha
      · exact List.mem_cons_self
      · exact List.mem_cons_of_mem _ (ih hrest ha)

/-- Checks of which none refuses anything give what they accept, with no violations. -/
theorem gather_eq_ok {check : β → Except Refusal α} {bs : List β} {as : List α}
    (h : List.Forall₂ (fun b a => check b = .ok a) bs as) :
    gather (bs.map check) = .ok { accepted := as } := by
  induction h with
  | nil => rfl
  | cons hhead _ ih =>
    rw [List.map_cons, hhead, gather, ih]
    rfl

/-! ## Two computations -/

/-- The computations fail alike, or have related results. -/
inductive Matched (R : α → β → Prop) : Except ε α → Except ε β → Prop where
  | error (e : ε) : Matched R (.error e) (.error e)
  | ok {a : α} {b : β} (h : R a b) : Matched R (.ok a) (.ok b)

namespace Matched

variable {γ δ : Type} {R : α → β → Prop} {S : γ → δ → Prop} {x : Except ε α} {y : Except ε β}

theorem refl {R : α → α → Prop} (hR : ∀ a, R a a) (x : Except ε α) : Matched R x x := by
  cases x with
  | error e => exact .error e
  | ok a => exact .ok (hR a)

theorem bind (h : Matched R x y) {f : α → Except ε γ} {g : β → Except ε δ}
    (hfg : ∀ a b, R a b → Matched S (f a) (g b)) : Matched S (x >>= f) (y >>= g) := by
  cases h with
  | error e => exact .error e
  | ok h => exact hfg _ _ h

/-- A first step in common leaves the rest to be related. -/
theorem bind_same (x : Except ε α) {f : α → Except ε γ} {g : α → Except ε δ}
    (hfg : ∀ a, Matched S (f a) (g a)) : Matched S (x >>= f) (x >>= g) := by
  cases x with
  | error e => exact .error e
  | ok a => exact hfg a

theorem map (h : Matched R x y) {f : α → γ} {g : β → δ} (hfg : ∀ a b, R a b → S (f a) (g b)) :
    Matched S (x.map f) (y.map g) := by
  cases h with
  | error e => exact .error e
  | ok h => exact .ok (hfg _ _ h)

/-- What is the same of related results is the same of both computations. -/
theorem map_eq (h : Matched R x y) {f : α → γ} {g : β → γ} (hfg : ∀ a b, R a b → f a = g b) :
    x.map f = y.map g := by
  cases h with
  | error e => rfl
  | ok h => exact congrArg Except.ok (hfg _ _ h)

theorem bind_eq (h : Matched R x y) {f : α → Except ε γ} {g : β → Except ε γ}
    (hfg : ∀ a b, R a b → f a = g b) : x >>= f = y >>= g := by
  cases h with
  | error e => rfl
  | ok h => exact hfg _ _ h

end Matched

/-- The computations fail with related errors, or have related results. -/
inductive Paired {δ : Type} (E : ε → δ → Prop) (R : α → β → Prop) :
    Except ε α → Except δ β → Prop where
  | error {e : ε} {d : δ} (h : E e d) : Paired E R (.error e) (.error d)
  | ok {a : α} {b : β} (h : R a b) : Paired E R (.ok a) (.ok b)

namespace Paired

variable {δ γ ζ : Type} {E : ε → δ → Prop} {R : α → β → Prop} {S : γ → ζ → Prop}
  {x : Except ε α} {y : Except δ β}

theorem imp {E' : ε → δ → Prop} {R' : α → β → Prop} (h : Paired E R x y)
    (hE : ∀ e d, E e d → E' e d) (hR : ∀ a b, R a b → R' a b) : Paired E' R' x y := by
  cases h with
  | error he => exact .error (hE _ _ he)
  | ok h => exact .ok (hR _ _ h)

theorem bind (h : Paired E R x y) {f : α → Except ε γ} {g : β → Except δ ζ}
    (hfg : ∀ a b, R a b → Paired E S (f a) (g b)) : Paired E S (x >>= f) (y >>= g) := by
  cases h with
  | error he => exact .error he
  | ok h => exact hfg _ _ h

theorem map (h : Paired E R x y) {f : α → γ} {g : β → ζ} (hfg : ∀ a b, R a b → S (f a) (g b)) :
    Paired E S (x.map f) (y.map g) := by
  cases h with
  | error he => exact .error he
  | ok h => exact .ok (hfg _ _ h)

theorem mapError {ε' δ' : Type} {E' : ε' → δ' → Prop} (h : Paired E R x y) {f : ε → ε'}
    {g : δ → δ'} (hfg : ∀ e d, E e d → E' (f e) (g d)) :
    Paired E' R (x.mapError f) (y.mapError g) := by
  cases h with
  | error he => exact .error (hfg _ _ he)
  | ok h => exact .ok h

/-- A first step in common leaves the rest to be related. -/
theorem bind_same {E : ε → ε → Prop} (hE : ∀ e, E e e) (x : Except ε α) {f : α → Except ε γ}
    {g : α → Except ε ζ} (hfg : ∀ a, Paired E S (f a) (g a)) : Paired E S (x >>= f) (x >>= g) := by
  cases x with
  | error e => exact .error (hE e)
  | ok a => exact hfg a

end Paired

/-- What is put together of the results for all members. -/
theorem append_eq_mapM {f : α → Except ε (List β)} {g : List α → Except ε (List β)}
    (hnil : g [] = .ok []) (hcons : ∀ x xs, g (x :: xs) = do return (← f x) ++ (← g xs))
    (xs : List α) : g xs = (xs.mapM f).map List.flatten := by
  induction xs with
  | nil => exact hnil
  | cons x xs ih =>
    rw [hcons, ih, List.mapM_cons]
    cases f x with
    | error e => rfl
    | ok ys => cases xs.mapM f <;> rfl

/-- A list of computations fails like one of them. -/
theorem exists_of_mapM_eq_error {f : α → Except ε β} {xs : List α} {e : ε}
    (h : xs.mapM f = .error e) : ∃ x ∈ xs, f x = .error e := by
  induction xs with
  | nil => cases h
  | cons x xs ih =>
    rw [List.mapM_cons] at h
    rcases bind_eq_error.1 h with hx | ⟨y, -, h⟩
    · exact ⟨x, List.mem_cons_self, hx⟩
    · rcases bind_eq_error.1 h with hxs | ⟨ys, -, h⟩
      · obtain ⟨x', hx', hfails⟩ := ih hxs
        exact ⟨x', List.mem_cons_of_mem x hx', hfails⟩
      · cases h

/-- If the members of a list can fail in one way only, the list fails in that way just if a member
does. -/
theorem mapM_eq_error_iff {f : α → Except ε β} {xs : List α} {e : ε}
    (he : ∀ x e', f x = .error e' → e' = e) :
    xs.mapM f = .error e ↔ ∃ x ∈ xs, f x = .error e := by
  constructor
  · exact exists_of_mapM_eq_error
  · rintro ⟨x, hx, hfails⟩
    cases h : xs.mapM f with
    | error e' =>
      obtain ⟨x', -, hfails'⟩ := exists_of_mapM_eq_error h
      rw [he x' e' hfails']
    | ok ys =>
      obtain ⟨y, -, hy⟩ := exists_of_mem_left (mapM_eq_ok.1 h) hx
      rw [hfails] at hy
      cases hy

/-- A list in another order has its results in another order. If it has none, the errors are such
as its members have. -/
theorem mapM_perm {f : α → Except ε β} {P : ε → Prop} {xs xs' : List α} (hperm : xs.Perm xs')
    (hP : ∀ x ∈ xs, ∀ e, f x = .error e → P e) :
    Paired (fun e d => P e ∧ P d) List.Perm (xs.mapM f) (xs'.mapM f) := by
  cases h : xs.mapM f with
  | error e =>
    obtain ⟨x, hx, hfails⟩ := exists_of_mapM_eq_error h
    cases h' : xs'.mapM f with
    | error e' =>
      obtain ⟨x', hx', hfails'⟩ := exists_of_mapM_eq_error h'
      exact .error ⟨hP x hx e hfails, hP x' (hperm.mem_iff.2 hx') e' hfails'⟩
    | ok ys' =>
      obtain ⟨y, -, hy⟩ := exists_of_mem_left (mapM_eq_ok.1 h') (hperm.mem_iff.1 hx)
      rw [hfails] at hy
      cases hy
  | ok ys =>
    obtain ⟨ys', h', hperm'⟩ := List.perm_comp_forall₂ hperm.symm (mapM_eq_ok.1 h)
    rw [mapM_eq_ok.2 h']
    exact .ok hperm'.symm

theorem map_eq_of_forall₂ {f : α → β} {xs ys : List α}
    (h : List.Forall₂ (fun x y => f x = f y) xs ys) : xs.map f = ys.map f := by
  induction h with
  | nil => rfl
  | cons hxy _ ih => rw [List.map_cons, List.map_cons, hxy, ih]

end RecordQuery
