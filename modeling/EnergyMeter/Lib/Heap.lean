import EnergyMeter.Lib.Partial
import Mathlib.Logic.Function.Basic

/-!
# Arrays by value and in a memory

A program reaches its arrays through pointers, each of them to a block of memory. As long as every
array has a block of its own the entries may as well be kept beside the pointer, and updating an
array is updating a value. Where two pointers meet in one block this goes wrong.

A program over arrays is therefore written over `MonadArray` and read twice:

* by value, in any monad: the block plays no part;
* in `HeapM`: the entries are those of the block, and what is kept beside the pointer is never
  read.

`Refines` compares a run in memory with a run by value, result by result and fault by fault.
`Holds` is what makes them agree: of a family of arrays, each with a block of its own, the memory
holds the entries. `Refines.read` and `Refines.write` are the two steps, and the other rules lead
them through a program.
-/

namespace EnergyMeter.Lib

/-- Monads in which a program reads and writes the arrays behind its pointers. An array is given by
its block and by the entries kept beside the pointer. -/
class MonadArray (m : Type → Type) (R : Type) where
  read : (block : ℕ) → (Data : ℕ → R) → (i : ℕ) → m R
  write : (block : ℕ) → (Data : ℕ → R) → (i : ℕ) → R → m (ℕ → R)

/-- Arrays by value. -/
instance (priority := low) byValue {m : Type → Type} [Monad m] {R : Type} : MonadArray m R where
  read _ Data i := pure (Data i)
  write _ Data i v := pure (Function.update Data i v)

section ByValue

variable {m : Type → Type} [Monad m] {R : Type}

theorem read_byValue (block : ℕ) (Data : ℕ → R) (i : ℕ) :
    (MonadArray.read block Data i : m R) = pure (Data i) := rfl

theorem write_byValue (block : ℕ) (Data : ℕ → R) (i : ℕ) (v : R) :
    (MonadArray.write block Data i v : m (ℕ → R)) = pure (Function.update Data i v) := rfl

end ByValue

/-! ## Arrays in a memory -/

/-- A memory: the entries of every block. -/
abbrev Heap (R : Type) : Type := ℕ → ℕ → R

/-- Programs that run on a memory and can fail. -/
def HeapM (R α : Type) : Type := StateT (Heap R) (Except Fault) α

instance (R : Type) : Monad (HeapM R) := inferInstanceAs (Monad (StateT (Heap R) (Except Fault)))

instance (R : Type) : LawfulMonad (HeapM R) :=
  inferInstanceAs (LawfulMonad (StateT (Heap R) (Except Fault)))

/-- The result on a memory, and the memory afterwards. -/
def HeapM.run {R α : Type} (x : HeapM R α) (h : Heap R) : Except Fault (α × Heap R) := x h

instance (R : Type) : MonadRequire (HeapM R) where
  require p _ e := fun h => if p then .ok ((), h) else .error e

instance (R : Type) : LawfulRequire (HeapM R) := ⟨fun hp => funext fun _ => if_pos hp⟩

instance (R : Type) : MonadArray (HeapM R) R where
  read block _ i := fun h => .ok (h block i, h)
  write block Data i v := fun h =>
    .ok (Function.update Data i v, Function.update h block (Function.update (h block) i v))

/-! ## Refinement -/

/-- Where the memory is as `P` says, the run in memory has the result of the run by value and leaves
the memory as `Q` says of the result, or it has the fault of the run by value. -/
structure Refines {R α : Type} (P : Heap R → Prop) (x : HeapM R α) (y : Except Fault α)
    (Q : α → Heap R → Prop) : Prop where
  ok : ∀ h, P h → ∀ a, y = .ok a → ∃ h', x.run h = .ok (a, h') ∧ Q a h'
  error : ∀ h, P h → ∀ e, y = .error e → x.run h = .error e

section Rules

variable {R α β : Type} {P P' : Heap R → Prop} {x : HeapM R α} {y : Except Fault α}
  {Q Q' : α → Heap R → Prop} {S : β → Heap R → Prop}

/-- Every result of a run in memory is one of the run by value. -/
theorem Refines.of_run (hRefines : Refines P x y Q) {h h' : Heap R} (hP : P h) {a : α}
    (hRun : x.run h = .ok (a, h')) : y = .ok a ∧ Q a h' := by
  cases hy : y with
  | error e =>
    rw [hRefines.error h hP e hy] at hRun
    cases hRun
  | ok b =>
    obtain ⟨h'', hEq, hQ⟩ := hRefines.ok h hP b hy
    rw [hEq] at hRun
    cases hRun
    exact ⟨rfl, hQ⟩

theorem Refines.conseq (hRefines : Refines P x y Q) (hPre : ∀ h, P' h → P h)
    (hPost : ∀ a h, Q a h → Q' a h) : Refines P' x y Q' where
  ok h hP a hy := by
    obtain ⟨h', hRun, hQ⟩ := hRefines.ok h (hPre h hP) a hy
    exact ⟨h', hRun, hPost a h' hQ⟩
  error h hP := hRefines.error h (hPre h hP)

theorem Refines.pure {a : α} (hPost : ∀ h, P h → Q a h) : Refines P (pure a) (pure a) Q where
  ok h hP b hb := by
    cases hb
    exact ⟨h, rfl, hPost h hP⟩
  error _ _ _ he := by cases he

theorem Refines.bind {f : α → HeapM R β} {g : α → Except Fault β} (hFirst : Refines P x y Q)
    (hNext : ∀ a, Refines (Q a) (f a) (g a) S) : Refines P (x >>= f) (y >>= g) S where
  ok h hP b hb := by
    obtain ⟨a, hy, hg⟩ := bind_eq_ok.mp hb
    obtain ⟨h', hRun, hQ⟩ := hFirst.ok h hP a hy
    obtain ⟨h'', hRun', hS⟩ := (hNext a).ok h' hQ b hg
    refine ⟨h'', ?_, hS⟩
    show (x.run h >>= fun s => (f s.1).run s.2) = _
    rw [hRun]
    exact hRun'
  error h hP e he := by
    show (x.run h >>= fun s => (f s.1).run s.2) = _
    -- the fault is one of the first part, or of the second
    cases hy : y with
    | error e' =>
      rw [hFirst.error h hP e' hy]
      rw [hy] at he
      cases he
      rfl
    | ok a =>
      obtain ⟨h', hRun, hQ⟩ := hFirst.ok h hP a hy
      rw [hRun]
      rw [hy] at he
      exact (hNext a).error h' hQ e he

/-- Behind a requirement it may be used. -/
theorem Refines.require {p : Prop} [Decidable p] {e : Fault} {f : Unit → HeapM R β}
    {g : Unit → Except Fault β} (hNext : p → Refines P (f ()) (g ()) S) :
    Refines P (require p e >>= f) (require p e >>= g) S where
  ok h hP b hb := by
    obtain ⟨u, hp, hg⟩ := bind_eq_ok.mp hb
    have hp : p := of_require_eq_ok hp
    rw [require_of hp, pure_bind]
    exact (hNext hp).ok h hP b hg
  error h hP e' he := by
    by_cases hp : p
    · rw [require_of hp, pure_bind] at he ⊢
      exact (hNext hp).error h hP e' he
    · have hFault : (Lib.require p e : Except Fault Unit) = .error e := if_neg hp
      have hHere : (Lib.require p e : HeapM R Unit).run h = .error e := if_neg hp
      rw [hFault] at he
      cases he
      show ((Lib.require p e : HeapM R Unit).run h >>= fun s => (f s.1).run s.2) = _
      rw [hHere]
      rfl

theorem Refines.fdiv {F : Type} [Field F] [DecidableEq F] (a b : F) :
    Refines P (fdiv a b) (fdiv a b) fun _ => P :=
  Refines.require fun _ => Refines.pure fun _ hP => hP

theorem Refines.fsqrt {F : Type} [Zero F] [LinearOrder F] [HasSqrt F] (a : F) :
    Refines P (fsqrt a) (fsqrt a) fun _ => P :=
  Refines.require fun _ => Refines.pure fun _ hP => hP

theorem Refines.ite {c : Prop} [Decidable c] {x' : HeapM R α} {y' : Except Fault α}
    (hThen : Refines P x y Q) (hElse : Refines P x' y' Q) :
    Refines P (if c then x else x') (if c then y else y') Q := by
  split
  · exact hThen
  · exact hElse

/-- Two branches that go on in the same way. -/
theorem Refines.join {c : Prop} [Decidable c] {x' : HeapM R α} {y' : Except Fault α}
    {f : α → HeapM R β} {g : α → Except Fault β} (hThen : Refines P x y Q)
    (hElse : Refines P x' y' Q) (hNext : ∀ a, Refines (Q a) (f a) (g a) S) :
    Refines P (if c then x >>= f else x' >>= f) (if c then y >>= g else y' >>= g) S :=
  Refines.ite (hThen.bind hNext) (hElse.bind hNext)

theorem Refines.map {f : α → β} (hRefines : Refines P x y fun _ => P) :
    Refines P (f <$> x) (f <$> y) fun _ => P := by
  rw [map_eq_pure_bind, map_eq_pure_bind]
  exact hRefines.bind fun _ => Refines.pure fun _ hP => hP

theorem Refines.foldlM {A B : Type} {f : B → A → HeapM R B} {g : B → A → Except Fault B}
    {I : B → Heap R → Prop} (hStep : ∀ b a, Refines (I b) (f b a) (g b a) I) (l : List A) (b : B) :
    Refines (I b) (l.foldlM f b) (l.foldlM g b) I := by
  induction l generalizing b with
  | nil => exact Refines.pure fun _ h => h
  | cons a l ih =>
    rw [List.foldlM_cons, List.foldlM_cons]
    exact (hStep b a).bind ih

end Rules

/-- What a write leaves, whatever else points to its block. -/
theorem Refines.store {R : Type} {P : Heap R → Prop} {Q : (ℕ → R) → Heap R → Prop} {block i : ℕ}
    {Data : ℕ → R} {v : R} (hPost : ∀ h, P h → Q (Function.update Data i v)
      (Function.update h block (Function.update (h block) i v))) :
    Refines P (MonadArray.write block Data i v) (MonadArray.write block Data i v) Q where
  ok h hP d hd := by
    cases hd
    exact ⟨_, rfl, hPost h hP⟩
  error _ _ _ he := by cases he

/-! ## A family of arrays -/

/-- The memory holds the first `len s` entries of every array `s`, each in a block of its own. -/
structure Holds {R ι : Type} (block len : ι → ℕ) (Data : ι → ℕ → R) (h : Heap R) : Prop where
  own : Function.Injective block
  eq : ∀ s, ∀ i < len s, h (block s) i = Data s i

section Family

variable {R ι : Type} [DecidableEq ι] {block len : ι → ℕ} {Data : ι → ℕ → R} {s : ι} {i : ℕ}

omit [DecidableEq ι] in
/-- Within its array an entry that is read is the one beside the pointer. -/
theorem Refines.read (hi : i < len s) :
    Refines (Holds block len Data) (MonadArray.read (block s) (Data s) i)
      (MonadArray.read (block s) (Data s) i) fun _ => Holds block len Data where
  ok h hHolds a ha := by
    cases ha
    refine ⟨h, ?_, hHolds⟩
    show Except.ok (h (block s) i, h) = _
    rw [hHolds.eq s i hi]
  error _ _ _ he := by cases he

/-- An entry that is written reaches no array but its own. -/
theorem Refines.write (v : R) :
    Refines (Holds block len Data) (MonadArray.write (block s) (Data s) i v)
      (MonadArray.write (block s) (Data s) i v)
      fun d => Holds block len (Function.update Data s d) := by
  refine Refines.store fun h hHolds => ⟨hHolds.own, fun s' j hj => ?_⟩
  by_cases hs : s' = s
  · subst hs
    rw [Function.update_self, Function.update_self]
    by_cases hij : j = i
    · subst hij
      rw [Function.update_self, Function.update_self]
    · rw [Function.update_of_ne hij, Function.update_of_ne hij]
      exact hHolds.eq s' j hj
  · rw [Function.update_of_ne (hHolds.own.ne hs), Function.update_of_ne hs]
    exact hHolds.eq s' j hj

/-- Two pointers to one block: what is written through the first is read through the second. -/
example : ((do
    let _ ← MonadArray.write 7 (fun _ => 1) 0 5
    MonadArray.read 7 (fun _ => 1) 0 : HeapM ℕ ℕ).run fun _ _ => 1).map Prod.fst = .ok 5 := rfl

end Family

end EnergyMeter.Lib
