import Mathlib.Algebra.GroupWithZero.Nat

/-!
# Passes that check a token

A pass over a tree checks a token that others may cancel, and returns at the first check that finds
it cancelled.  What matters is the number of checks and what the pass does when none of them fails.

* `Pass`, `Pass.check` - computations that count their checks, and one check;
* `Pass.inOrder` - computations one behind the other;
* `Pass.checked` - the pass of a number of checks and an effect;
* `Pass.checked_bind`, `Pass.inOrder_checked` - its composition.
-/

namespace ActionTree

/-- Counting on from a start. -/
theorem foldl_add (start : Nat) (ns : List Nat) : ns.foldl (· + ·) start = start + ns.sum := by
  induction ns generalizing start with
  | nil => rfl
  | cons n ns ih => rw [List.foldl_cons, ih, List.sum_cons, Nat.add_assoc]

/-- Computations over a state that check a token.  The checks are counted, and there is no result
once one of them finds the token cancelled. -/
abbrev Pass (σ α : Type) := StateT (Nat × σ) Option α

namespace Pass

variable {σ α β : Type}

/-- Checks the token: `raised i` is what the `i`-th check finds. -/
def check (raised : Nat → Bool) : Pass σ Unit := fun (i, s) =>
  if raised i then none else some ((), (i + 1, s))

/-- Runs computations one behind the other. -/
def inOrder : List (Pass σ α) → Pass σ (List α)
  | [] => pure []
  | p :: ps => do
    let a ← p
    let as ← inOrder ps
    pure (a :: as)

/-- The pass that makes a number of checks and has an effect if none of them fails. -/
def checked (raised : Nat → Bool) (checks : Nat) (f : σ → α × σ) : Pass σ α := fun (i, s) =>
  if (List.range checks).any fun j => raised (i + j) then none
  else some ((f s).1, (i + checks, (f s).2))

variable {raised : Nat → Bool}

theorem checked_one : checked raised 1 (fun s => ((), s)) = (check raised : Pass σ Unit) := by
  funext ⟨i, s⟩
  simp [checked, check]

/-- One pass behind another. -/
theorem checked_bind (a b : Nat) (f : σ → α × σ) (g : α → σ → β × σ) :
    (checked raised a f >>= fun x => checked raised b (g x)) =
      checked raised (a + b) fun s => g (f s).1 (f s).2 := by
  funext ⟨i, s⟩
  show ((checked raised a f) (i, s)).bind (fun p => checked raised b (g p.1) p.2) = _
  simp only [checked, List.range_add, List.any_append, List.any_map, Function.comp_def,
    ← Nat.add_assoc]
  by_cases hfirst : ((List.range a).any fun j => raised (i + j)) = true
  · simp only [hfirst, if_true, Bool.true_or, Option.bind_none]
  · rw [Bool.not_eq_true] at hfirst
    simp only [hfirst, Bool.false_eq_true, if_false, Bool.false_or, Option.bind_some]

theorem checked_map (a : Nat) (f : σ → α × σ) (g : α → β) :
    (checked raised a f >>= fun x => pure (g x)) =
      checked raised a fun s => (g (f s).1, (f s).2) :=
  checked_bind a 0 f fun x s => (g x, s)

/-- An effect for each of some values, one behind the other. -/
def thread (f : β → σ → α × σ) : List β → σ → List α × σ
  | [], s => ([], s)
  | b :: bs, s => ((f b s).1 :: (thread f bs (f b s).2).1, (thread f bs (f b s).2).2)

/-- Effects that leave the state alone. -/
theorem thread_pure (f : β → α) (bs : List β) (s : σ) :
    thread (fun b s => (f b, s)) bs s = (bs.map f, s) := by
  induction bs with
  | nil => rfl
  | cons b bs ih => rw [thread, ih]; rfl

/-- Passes one behind the other. -/
theorem inOrder_checked {pass : β → Pass σ α} {checks : β → Nat} {f : β → σ → α × σ} {bs : List β}
    (h : ∀ b ∈ bs, pass b = checked raised (checks b) (f b)) :
    inOrder (bs.map pass) = checked raised (bs.map checks).sum (thread f bs) := by
  induction bs with
  | nil => rfl
  | cons b bs ih =>
    have hrest := ih fun c hc => h c (List.mem_cons_of_mem b hc)
    have hlast (a : α) : (inOrder (bs.map pass) >>= fun as => pure (a :: as)) =
        checked raised (bs.map checks).sum
          fun s => (a :: (thread f bs s).1, (thread f bs s).2) := by
      rw [hrest, checked_map]
    rw [List.map_cons, inOrder, h b List.mem_cons_self]
    simp only [hlast]
    exact checked_bind _ _ (f b) _

end Pass

end ActionTree
