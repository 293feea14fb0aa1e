import ForcingData.FileTree.Disk

/-! # Runs of work on file trees

What the steps of `Disk` do to a tree: `on_bind` runs two steps one after the other, and the
primitives look at the tree or change it. `Fails` says how work can fail. Directories are made from
the nearest that is there (`on_createDirectories_eq`). -/

namespace ForcingData.Disk
variable {ε ε' α β : Type} (t : FileTree)

@[simp] theorem on_pure (a : α) : (pure a : Disk ε α).on t = (.ok a, t) := rfl

@[simp] theorem on_throw (e : ε) : (throw e : Disk ε α).on t = (.error e, t) := rfl

@[simp] theorem on_get : (get : Disk ε FileTree).on t = (.ok t, t) := rfl

theorem on_bind (x : Disk ε α) (f : α → Disk ε β) : (x >>= f).on t =
    match x.on t with
    | (.ok a, t') => (f a).on t'
    | (.error e, t') => (.error e, t') := by
  show StateT.bind x (ExceptT.bindCont f) t = _
  unfold StateT.bind
  rcases hx : x.on t with ⟨r, t'⟩
  rw [show x t = (r, t') from hx]
  cases r <;> rfl

theorem on_ask (f : FileTree → Except ε α) : (ask f).on t = (f t, t) := by
  rw [ask, on_bind, on_get]
  simp only
  cases f t <;> rfl

theorem on_change (f : FileTree → Except ε FileTree) : (change f).on t =
    match f t with
    | .ok t' => (.ok (), t')
    | .error e => (.error e, t) := by
  rw [change, on_bind, on_get]
  simp only
  cases f t <;> rfl

theorem on_withError (f : ε → ε') (x : Disk ε α) :
    (x.withError f).on t = ((x.on t).1.mapError f, (x.on t).2) := rfl

/-! ### Failures -/

variable {t} {t' : FileTree} {Q : ε → Prop} {Q' : ε' → Prop} {e : ε}

theorem on_bind_eq_error {x : Disk ε α} {f : α → Disk ε β} :
    (x >>= f).on t = (.error e, t') ↔
      x.on t = (.error e, t') ∨ ∃ a t₁, x.on t = (.ok a, t₁) ∧ (f a).on t₁ = (.error e, t') := by
  rw [on_bind]
  rcases x.on t with ⟨e₁ | a, t₁⟩
  · simp
  · refine ⟨fun h => .inr ⟨a, t₁, rfl, h⟩, ?_⟩
    rintro (h | ⟨_, _, h, hf⟩)
    · cases h
    · cases h
      exact hf

theorem on_withError_eq_error {x : Disk ε' α} {f : ε' → ε} :
    (x.withError f).on t = (.error e, t') ↔ ∃ e₁, x.on t = (.error e₁, t') ∧ f e₁ = e := by
  rw [on_withError]
  rcases x.on t with ⟨e₁ | a, t₁⟩
  · constructor
    · intro h
      cases h
      exact ⟨e₁, rfl, rfl⟩
    · rintro ⟨_, h, rfl⟩
      cases h
      rfl
  · constructor
    · rintro ⟨⟩
    · rintro ⟨_, h, _⟩
      cases h

/-- Every failure of the work has the property. -/
def Fails (Q : ε → Prop) (x : Disk ε α) : Prop :=
  ∀ t e t', x.on t = (.error e, t') → Q e

theorem fails_pure (a : α) : Fails Q (pure a : Disk ε α) := fun _ _ _ h => by cases h

theorem Fails.bind {x : Disk ε α} {f : α → Disk ε β} (hx : Fails Q x) (hf : ∀ a, Fails Q (f a)) :
    Fails Q (x >>= f) := by
  intro t e t' h
  rcases on_bind_eq_error.mp h with h | ⟨a, t₁, _, h⟩
  · exact hx t e t' h
  · exact hf a t₁ e t' h

theorem fails_ask {f : FileTree → Except ε α} (hf : ∀ t e, f t = .error e → Q e) :
    Fails Q (ask f) := by
  intro t e t' h
  rw [on_ask] at h
  exact hf t e (Prod.ext_iff.mp h).1

theorem Fails.withError {x : Disk ε α} {f : ε → ε'} (hx : Fails (Q' ∘ f) x) :
    Fails Q' (x.withError f) := by
  intro t e t' h
  obtain ⟨e₁, hfailed, rfl⟩ := on_withError_eq_error.mp h
  exact hx t e₁ t' hfailed

end ForcingData.Disk

/-! ### Making directories -/

namespace ForcingData.FileTree
open Disk
variable (t : FileTree) (p : Path)

theorem on_makeOrFind : (makeOrFind p).on t =
    match t.makeDirectory p with
    | .ok t' => (.ok (), t')
    | .error e => (if t.isDirectory p then .ok () else .error e, t) := by
  unfold on makeOrFind
  cases h : t.makeDirectory p <;> simp only [ExceptT.run, h]

theorem on_makeDirectories (fuel : Nat) : (makeDirectories (fuel + 1) p).on t =
    if p.text = "" then (.ok (), t)
    else
      match t.makeDirectory p with
      | .error .notFound =>
        match p.parent? with
        | none => (.error .notFound, t)
        | some parent => (do makeDirectories fuel parent; makeOrFind p : Disk OsError Unit).on t
      | _ => (makeOrFind p).on t := by
  unfold on
  rw [makeDirectories]
  simp only [ExceptT.run]
  by_cases hp : p.text = ""
  · rw [if_pos hp, if_pos hp]
  · rw [if_neg hp, if_neg hp]
    rcases t.makeDirectory p with e | _
    · cases e with
      | notFound => cases p.parent? <;> rfl
      | _ => rfl
    · rfl

theorem on_createDirectories_eq : (createDirectories p).on t =
    if p.text = "" then (.ok (), t)
    else
      match t.makeDirectory p with
      | .error .notFound =>
        match p.parent? with
        | none => (.error .notFound, t)
        | some parent =>
          (do makeDirectories p.text.length parent; makeOrFind p : Disk OsError Unit).on t
      | _ => (makeOrFind p).on t := on_makeDirectories t p _

end ForcingData.FileTree
