import ForcingData.FileTree.Work
import ForcingData.Proofs.FileTree.Disk
import Mathlib.Data.List.Forall2
import Mathlib.Logic.Relation

/-! # Works that take turns

Works that are done together take steps in some order until all have succeeded or one has failed
(`exists_steps_together`). So a property of the tree that no step of any work breaks is kept
(`keeps_together`), and what is done to the tree is an interleaving of what the works do, each in
order and perhaps not to its end (`interleaved_together`). -/

namespace ForcingData.Work
open Disk Relation

variable {ε ε' δ α β κ : Type} {t t' : FileTree} {w w' : Work ε α} {works works' : List (Work ε α)}
  {turns : List Nat} {e : ε} {i : Nat} {change : FileTree → FileTree} {next : FileTree → Work ε α}

@[simp] theorem bind_done_ok (a : α) (f : α → Work ε β) : (done (.ok a) : Work ε α).bind f = f a :=
  rfl

/-! ### Steps -/

/-- One of the works takes a step. -/
inductive Step : List (Work ε α) × FileTree → List (Work ε α) × FileTree → Prop
  | step {works : List (Work ε α)} {t : FileTree} {i : Nat} {change : FileTree → FileTree}
      {next : FileTree → Work ε α} (h : works[i]? = some (.step change next)) :
      Step (works, t) (works.set i (next t), change t)

/-- All works have succeeded, or one of them has failed. -/
def Ended : Except ε (List α) → List (Work ε α) → Prop
  | .ok results, works => works = results.map fun a => .done (.ok a)
  | .error e, works => .done (.error e) ∈ works

theorem on_advance_step : (step change next : Work ε α).advance.on t =
    match next t with
    | .done (.error e) => (.error e, change t)
    | w => (.ok w, change t) := rfl

theorem set_self {l : List α} {a : α} (h : l[i]? = some a) : l.set i a = l := by
  obtain ⟨hi, rfl⟩ := List.getElem?_eq_some_iff.mp h
  exact List.set_getElem_self hi

theorem mem_set {l : List α} {a b : α} (h : l[i]? = some a) : b ∈ l.set i b :=
  List.mem_set (List.getElem?_eq_some_iff.mp h).1 b

theorem steps_advance (h : works[i]? = some w) (hw : w.advance.on t = (.ok w', t')) :
    ReflTransGen Step (works, t) (works.set i w', t') := by
  cases w with
  | done result =>
    cases result with
    | error e => cases hw
    | ok a =>
      cases hw
      rw [set_self h]
  | step change next =>
    rw [on_advance_step] at hw
    split at hw
    · cases hw
    · cases hw
      exact .single (.step h)

theorem exists_steps_advance (h : works[i]? = some w) (hw : w.advance.on t = (.error e, t')) :
    ∃ works', ReflTransGen Step (works, t) (works', t') ∧ .done (.error e) ∈ works' := by
  cases w with
  | done result =>
    cases result with
    | ok a => cases hw
    | error e =>
      cases hw
      exact ⟨works, .refl, List.mem_of_getElem? h⟩
  | step change next =>
    rw [on_advance_step] at hw
    split at hw
    · rename_i e' hnext
      cases hw
      exact ⟨_, .single (.step h), hnext ▸ mem_set h⟩
    · cases hw

theorem steps_run (before after : List (Work ε α)) : ∀ (w : Work ε α) (t : FileTree),
    ReflTransGen Step (before ++ w :: after, t)
      (before ++ .done (w.run.on t).1 :: after, (w.run.on t).2)
  | .done result, t => .refl
  | .step change next, t => by
    have hget : (before ++ .step change next :: after)[before.length]? =
        some (.step change next) := by simp
    have hstep : Step (before ++ .step change next :: after, t)
        (before ++ next t :: after, change t) := by
      have hset := Step.step hget (t := t)
      rwa [List.set_append_right _ _ (Nat.le_refl _), Nat.sub_self, List.set_cons_zero] at hset
    exact (steps_run before after (next t) (change t)).head hstep

theorem exists_steps_mapM_run (before : List (Work ε α)) : ∀ (works : List (Work ε α))
    (t : FileTree), ∃ works', ReflTransGen Step (before ++ works, t)
      (before ++ works', ((works.mapM run).on t).2) ∧ Ended ((works.mapM run).on t).1 works'
  | [], t => ⟨[], .refl, rfl⟩
  | w :: works, t => by
    have hfirst := steps_run before works w t
    rw [List.mapM_cons, on_bind]
    rcases hw : w.run.on t with ⟨e | a, t₁⟩
    · rw [hw] at hfirst
      exact ⟨_, hfirst, List.mem_cons_self ..⟩
    · rw [hw] at hfirst
      obtain ⟨works', hsteps, hended⟩ := exists_steps_mapM_run (before ++ [.done (.ok a)]) works t₁
      simp only [List.append_assoc, List.singleton_append] at hsteps
      simp only [on_bind]
      refine ⟨.done (.ok a) :: works', ?_⟩
      rcases hrest : (works.mapM run).on t₁ with ⟨e | as, t₂⟩
      · rw [hrest] at hsteps hended
        exact ⟨hfirst.trans hsteps, List.mem_cons_of_mem _ hended⟩
      · rw [hrest] at hsteps hended
        exact ⟨hfirst.trans hsteps, congrArg (_ :: ·) hended⟩

/-- Whoever's turn it is, works that are done together take steps until they have ended. -/
theorem exists_steps_together : ∀ (turns : List Nat) (works : List (Work ε α)) (t : FileTree),
    ∃ works', ReflTransGen Step (works, t) (works', ((together turns works).on t).2) ∧
      Ended ((together turns works).on t).1 works'
  | [], works, t => exists_steps_mapM_run [] works t
  | i :: turns, works, t => by
    rw [together]
    cases hi : works[i]? with
    | none => exact exists_steps_together turns works t
    | some w =>
      simp only [on_bind]
      rcases hw : w.advance.on t with ⟨e | w', t₁⟩
      · exact exists_steps_advance hi hw
      · obtain ⟨works', hsteps, hended⟩ := exists_steps_together turns (works.set i w') t₁
        exact ⟨works', (steps_advance hi hw).trans hsteps, hended⟩

section
variable (hi : works[i]? = some w)
include hi

theorem on_together_of_ok (hw : w.advance.on t = (.ok w', t')) :
    (together (i :: turns) works).on t = (together turns (works.set i w')).on t' := by
  rw [together, hi]
  simp only [on_bind, hw]

theorem on_together_of_error (hw : w.advance.on t = (.error e, t')) :
    (together (i :: turns) works).on t = (.error e, t') := by
  rw [together, hi]
  simp only [on_bind, hw]

end

/-! ### What is kept -/

/-- From trees with a property every step leads to such trees, and what the work ends with has
another property. -/
def Keeps (I : FileTree → Prop) (P : Except ε α → Prop) : Work ε α → Prop
  | .done result => P result
  | .step change next => ∀ t, I t → I (change t) ∧ (next t).Keeps I P

section
variable {I : FileTree → Prop} {Q : Except ε α → Prop} {P : κ → Except ε α → Prop} {keys : List κ}

theorem exists_of_forall₂ {γ : Type} {R : κ → γ → Prop} {bs : List γ} {b : γ}
    (h : List.Forall₂ R keys bs) (hb : bs[i]? = some b) : ∃ k, keys[i]? = some k ∧ R k b := by
  induction h generalizing i with
  | nil => cases hb
  | cons hfirst _ ih =>
    cases i with
    | zero =>
      cases hb
      exact ⟨_, rfl, hfirst⟩
    | succ i => exact ih hb

theorem forall₂_set {γ : Type} {R : κ → γ → Prop} {bs : List γ} {b : γ}
    (h : List.Forall₂ R keys bs) (hb : ∀ k, keys[i]? = some k → R k b) :
    List.Forall₂ R keys (bs.set i b) := by
  induction h generalizing i with
  | nil => exact .nil
  | cons hfirst hrest ih =>
    cases i with
    | zero => exact .cons (hb _ rfl) hrest
    | succ i => exact .cons hfirst (ih hb)

theorem forall₂_set_set {γ : Type} {R : κ → γ → Prop} {bs : List γ} {k : κ} {b : γ}
    (h : List.Forall₂ R keys bs) (hb : R k b) : List.Forall₂ R (keys.set i k) (bs.set i b) := by
  induction h generalizing i with
  | nil => exact .nil
  | cons hfirst hrest ih =>
    cases i with
    | zero => exact .cons hb hrest
    | succ i => exact .cons hfirst ih

theorem keeps_of_steps {a b : List (Work ε α) × FileTree} (h : ReflTransGen Step a b)
    (hI : I a.2) (ha : List.Forall₂ (fun k w => w.Keeps I (P k)) keys a.1) :
    I b.2 ∧ List.Forall₂ (fun k w => w.Keeps I (P k)) keys b.1 := by
  induction h with
  | refl => exact ⟨hI, ha⟩
  | tail _ hstep ih =>
    obtain ⟨hI, hkeeps⟩ := ih
    cases hstep with
    | step hi =>
      obtain ⟨k, hk, hw⟩ := exists_of_forall₂ hkeeps hi
      refine ⟨(hw _ hI).1, forall₂_set hkeeps fun k' hk' => ?_⟩
      obtain rfl := Option.some.inj (hk.symm.trans hk')
      exact (hw _ hI).2

/-- What every step of every work keeps is kept by all of them together, whoever's turn it is. -/
theorem keeps_together {r : Except ε (List α)}
    (h : List.Forall₂ (fun k w => w.Keeps I (P k)) keys works) (hI : I t)
    (hon : (together turns works).on t = (r, t')) :
    I t' ∧ (∀ results, r = .ok results → List.Forall₂ (fun k a => P k (.ok a)) keys results) ∧
      ∀ e, r = .error e → ∃ k ∈ keys, P k (.error e) := by
  obtain ⟨works', hsteps, hended⟩ := exists_steps_together turns works t
  rw [hon] at hsteps hended
  obtain ⟨hI, hkeeps⟩ := keeps_of_steps hsteps hI h
  refine ⟨hI, ?_, ?_⟩
  · rintro results rfl
    obtain rfl : works' = results.map fun a => .done (.ok a) := hended
    have hall : List.Forall₂ (fun k (w : Work ε α) => w.Keeps I (P k)) keys
        (results.map fun a => .done (.ok a)) := hkeeps
    rwa [List.forall₂_map_right_iff] at hall
  · rintro e rfl
    obtain ⟨i, hi⟩ := List.getElem?_of_mem (show .done (.error e) ∈ works' from hended)
    obtain ⟨k, hk, hP⟩ := exists_of_forall₂ hkeeps hi
    exact ⟨k, List.mem_of_getElem? hk, hP⟩

theorem Keeps.run : ∀ {w : Work ε α} {t : FileTree}, w.Keeps I Q → I t →
    Q (w.run.on t).1 ∧ I (w.run.on t).2
  | .done _, _, h, hI => ⟨h, hI⟩
  | .step _ next, t, h, hI =>
    have ⟨hI', hnext⟩ := h t hI
    Keeps.run (w := next t) hnext hI'

theorem Keeps.mono {Q' : Except ε α → Prop} (hQ : ∀ r, Q r → Q' r) :
    ∀ {w : Work ε α}, w.Keeps I Q → w.Keeps I Q'
  | .done _, h => hQ _ h
  | .step _ next, h => fun t hI => ⟨(h t hI).1, Keeps.mono hQ (w := next t) (h t hI).2⟩

theorem Keeps.advance (h : w.Keeps I Q) (hI : I t) (hQ : ∀ e, ¬Q (.error e)) :
    ∃ w' t', w.advance.on t = (.ok w', t') ∧ w'.Keeps I Q ∧ I t' := by
  cases w with
  | done result =>
    cases result with
    | error e => exact absurd h (hQ e)
    | ok a => exact ⟨_, _, rfl, h, hI⟩
  | step change next =>
    obtain ⟨hI', hnext⟩ := h t hI
    rw [on_advance_step]
    split
    · rename_i e he
      rw [he] at hnext
      exact absurd hnext (hQ e)
    · exact ⟨_, _, rfl, hnext, hI'⟩

/-! ### Works that do not change the tree -/

theorem on_run_of_advance (h : w.advance.on t = (.error e, t')) : w.run.on t = (.error e, t') := by
  cases w with
  | done result =>
    cases result with
    | ok a => cases h
    | error e =>
      cases h
      rfl
  | step change next =>
    rw [on_advance_step] at h
    split at h
    · rename_i he
      cases h
      show (next t).run.on (change t) = _
      rw [he]
      rfl
    · cases h

/-- Work that fails with its next step if it is to fail, and else leaves the tree as it is. -/
def FailsIf (t : FileTree) (fails : Bool) (E : ε → Prop) (w : Work ε α) : Prop :=
  if fails then ∃ e, E e ∧ w.advance.on t = (.error e, t)
  else w.Keeps (· = t) fun r => ∃ a, r = .ok a

variable {fails : κ → Bool} {E : κ → ε → Prop} {k : κ}

theorem on_mapM_run_of_find? (h : List.Forall₂ (fun k w => FailsIf t (fails k) (E k) w) keys works)
    (hk : keys.find? fails = some k) :
    ∃ e, E k e ∧ (works.mapM Work.run).on t = (.error e, t) := by
  induction h with
  | nil => cases hk
  | @cons first w _ _ hfirst _ ih =>
    simp only [List.mapM_cons]
    cases hfails : fails first with
    | true =>
      rw [List.find?_cons_of_pos hfails] at hk
      cases hk
      rw [FailsIf, hfails, if_pos rfl] at hfirst
      obtain ⟨e, he, hon⟩ := hfirst
      exact ⟨e, he, by rw [on_bind, on_run_of_advance hon]⟩
    | false =>
      rw [List.find?_cons_of_neg (by simp [hfails])] at hk
      rw [FailsIf, hfails, if_neg Bool.false_ne_true] at hfirst
      obtain ⟨e, he, hon⟩ := ih hk
      obtain ⟨⟨a, ha⟩, hsame⟩ := hfirst.run rfl
      refine ⟨e, he, ?_⟩
      rw [on_bind, show w.run.on t = (.ok a, t) from Prod.ext ha hsame]
      simp only [on_bind, hon]

/-- Of works that are to fail, the first whose turn it is ends it all. -/
theorem on_together_of_find? : ∀ (turns : List Nat) {works : List (Work ε α)},
    List.Forall₂ (fun k w => FailsIf t (fails k) (E k) w) keys works →
    (turns.filterMap (keys[·]?) ++ keys).find? fails = some k →
    ∃ e, E k e ∧ (together turns works).on t = (.error e, t)
  | [], _, h, hk => on_mapM_run_of_find? h hk
  | i :: turns, works, h, hk => by
    rw [together]
    cases hi : works[i]? with
    | none =>
      have hnone : keys[i]? = none := by
        rw [List.getElem?_eq_none_iff, h.length_eq, ← List.getElem?_eq_none_iff, hi]
      rw [List.filterMap_cons_none hnone] at hk
      exact on_together_of_find? turns h hk
    | some w =>
      obtain ⟨first, hfirst, hw⟩ := exists_of_forall₂ h hi
      rw [List.filterMap_cons_some hfirst, List.cons_append] at hk
      simp only [on_bind]
      -- the turn of a work that fails ends all of them; any other leaves the tree as it is
      cases hfails : fails first with
      | true =>
        rw [List.find?_cons_of_pos hfails] at hk
        cases hk
        rw [FailsIf, hfails, if_pos rfl] at hw
        obtain ⟨e, he, hon⟩ := hw
        exact ⟨e, he, by rw [hon]⟩
      | false =>
        rw [List.find?_cons_of_neg (by simp [hfails])] at hk
        rw [FailsIf, hfails, if_neg Bool.false_ne_true] at hw
        have hnever : ∀ e, ¬∃ a : α, (.error e : Except ε α) = .ok a := by
          rintro e ⟨a, ha⟩
          cases ha
        obtain ⟨w', t', hon, hw', hsame⟩ := hw.advance rfl hnever
        rw [hon, show t' = t from hsame]
        refine on_together_of_find? turns (forall₂_set h fun k' hk' => ?_) hk
        obtain rfl := Option.some.inj (hfirst.symm.trans hk')
        rw [FailsIf, hfails, if_neg Bool.false_ne_true]
        exact hw'

end

/-! ### What is done to the tree -/

/-- What is left to do after a step, if none is done after one that failed. -/
def remaining (result : Except δ Unit) (steps : List (Disk δ Unit)) : List (Disk δ Unit) :=
  match result with
  | .ok _ => steps
  | .error _ => []

/-- Of several lists of steps some have been done: of each list one after the other, up to one that
failed if one did, and steps of others between them. -/
inductive Interleaved : List (List (Disk δ Unit)) → FileTree → FileTree → Prop
  | refl (lists : List (List (Disk δ Unit))) (t : FileTree) : Interleaved lists t t
  | step {lists : List (List (Disk δ Unit))} {t t' : FileTree} {i : Nat} {x : Disk δ Unit}
      {steps : List (Disk δ Unit)} (hi : lists[i]? = some (x :: steps))
      (h : Interleaved (lists.set i (remaining (x.on t).1 steps)) (x.on t).2 t') :
      Interleaved lists t t'

/-- What the work does to the tree are these steps. -/
def Follows : List (Disk δ Unit) → Work ε α → Prop
  | _, .done _ => True
  | steps, .step change next => (∀ t, change t = t ∧ Follows steps (next t)) ∨
      ∃ x rest, steps = x :: rest ∧
        ∀ t, change t = (x.on t).2 ∧ Follows (remaining (x.on t).1 rest) (next t)

section
variable {lists : List (List (Disk δ Unit))} {steps : List (Disk δ Unit)}

theorem interleaved_of_steps {a b : List (Work ε α) × FileTree} (h : ReflTransGen Step a b)
    {lists : List (List (Disk δ Unit))} (ha : List.Forall₂ Follows lists a.1) :
    Interleaved lists a.2 b.2 := by
  induction h using ReflTransGen.head_induction_on generalizing lists with
  | refl => exact .refl _ _
  | head hstep _ ih =>
    cases hstep with
    | @step works t i change next hi =>
      obtain ⟨steps, hsteps, hw⟩ := exists_of_forall₂ ha hi
      rcases hw with hlook | ⟨x, rest, rfl, hdo⟩
      · -- the work only looks, so nothing of its list is done
        rw [(hlook t).1] at ih
        refine ih (forall₂_set ha fun steps' hsteps' => ?_)
        obtain rfl := Option.some.inj (hsteps.symm.trans hsteps')
        exact (hlook t).2
      · rw [(hdo t).1] at ih
        exact .step hsteps (ih (forall₂_set_set ha (hdo t).2))

/-- Whoever's turn it is, works do together what they do, each in order. -/
theorem interleaved_together (h : List.Forall₂ Follows lists works) (turns : List Nat)
    (t : FileTree) : Interleaved lists t ((together turns works).on t).2 := by
  obtain ⟨works', hsteps, -⟩ := exists_steps_together turns works t
  exact interleaved_of_steps hsteps h

theorem on_advance_attempt {f : Unit → Work ε' α} {x y : Disk δ Unit} (hx : x.on t = (.ok (), t')) :
    (((x :: y :: steps).forM once).attempt >>= f).advance.on t =
      (.ok (((y :: steps).forM once).attempt >>= f), t') := by
  show (step (fun t => (x.on t).2) fun t =>
    (Work.done (x.on t).1 >>= fun _ => (y :: steps).forM once).attempt >>= f).advance.on t = _
  rw [on_advance_step, hx]
  rfl

theorem follows_attempt {f : Unit → Work ε' α} (hf : ∀ steps : List (Disk δ Unit),
    Follows steps (f ())) : ∀ steps : List (Disk δ Unit),
    Follows steps ((steps.forM once).attempt >>= f)
  | [] => hf []
  | x :: steps => by
    refine .inr ⟨x, steps, rfl, fun t => ⟨rfl, ?_⟩⟩
    show Follows _ ((Work.done (x.on t).1 >>= fun _ => steps.forM once).attempt >>= f)
    cases (x.on t).1 with
    | error e => exact hf []
    | ok => exact follows_attempt hf steps

end
end ForcingData.Work
