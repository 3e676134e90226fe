import Rustd.Base.File

/-!
# Programs that work on a file

A program is a tree of system calls on one file. It can be executed with every call succeeding, or
up to a call that fails; a failed call ends it, so that the file is left as the calls before made
it, with a part of the failed write in it. `Ensures` is the specification of an execution, with a
rule for each call and one for sequences.
-/

namespace Rustd.Base

/-- A program with results in `α` and errors in `ε`. A read past the end of the file gives the
error it names; the room of a file can be reserved, or the file system has no such call; `call`
stands for calls that leave the file alone, which can fail too. -/
inductive Program (ε α : Type) where
  | done (a : α)
  | fail (e : ε)
  | read (offset length : Nat) (eof : ε) (next : List UInt8 → Program ε α)
  | write (offset : Nat) (bytes : List UInt8) (next : Program ε α)
  | reserve (offset size : Nat) (unsupported next : Program ε α)
  | truncate (size : Nat) (next : Program ε α)
  | call (next : Program ε α)

namespace Program

variable {ε α β : Type}

def andThen : Program ε α → (α → Program ε β) → Program ε β
  | done a, k => k a
  | fail e, _ => fail e
  | read offset length eof next, k => read offset length eof (fun bytes => (next bytes).andThen k)
  | write offset bytes next, k => write offset bytes (next.andThen k)
  | reserve offset size unsupported next, k =>
    reserve offset size (unsupported.andThen k) (next.andThen k)
  | truncate size next, k => truncate size (next.andThen k)
  | call next, k => call (next.andThen k)

instance : Monad (Program ε) where
  pure := done
  bind := andThen

def readAt (offset length : Nat) (eof : ε) : Program ε (List UInt8) := read offset length eof done

def writeAt (offset : Nat) (bytes : List UInt8) : Program ε Unit := write offset bytes (done ())

/-- Every call succeeds; `supported` says whether the file system can reserve room. -/
def exec (supported : Bool) : Program ε α → File → Except ε α × File
  | done a, f => (.ok a, f)
  | fail e, f => (.error e, f)
  | read offset length eof next, f =>
    match f.read? offset length with
    | some bytes => exec supported (next bytes) f
    | none => (.error eof, f)
  | write offset bytes next, f => exec supported next (f.write offset bytes)
  | reserve offset size unsupported next, f =>
    if supported then exec supported next (f.reserve (offset + size))
    else exec supported unsupported f
  | truncate size next, f => exec supported next (f.truncate size)
  | call next, f => exec supported next f

/-- An execution that ends without an error has the result, and one with an error has an error of
the given kind. -/
def Ensures (supported : Bool) (p : Program ε α) (f : File) (E : ε → Prop)
    (Q : α → File → Prop) : Prop :=
  match p.exec supported f with
  | (.ok a, f') => Q a f'
  | (.error e, _) => E e

section

variable {supported sup : Bool} {f : File} {E : ε → Prop} {p : Program ε α} {k : α → Program ε β}

private theorem exec_bind (p : Program ε α) (k : α → Program ε β) (f : File) :
    (p >>= k).exec sup f =
      match p.exec sup f with
      | (.ok a, f') => (k a).exec sup f'
      | (.error e, f') => (.error e, f') := by
  show (p.andThen k).exec sup f = _
  induction p generalizing f with
  | done | fail => rfl
  | read off l eof n ih =>
    rw [andThen, exec, exec]
    cases f.read? off l with
    | none => rfl
    | some bytes => exact ih bytes f
  | write off bytes n ih => exact ih _
  | reserve off s u n ihu ihn =>
    rw [andThen, exec, exec]
    split
    · exact ihn _
    · exact ihu _
  | truncate s n ih => exact ih _
  | call n ih => exact ih _

theorem ensures_bind (h : p.Ensures sup f E (fun a f' => (k a).Ensures sup f' E Q)) :
    (p >>= k).Ensures sup f E Q := by
  unfold Ensures at h ⊢
  rw [exec_bind]
  rcases hp : p.exec sup f with ⟨_ | a, f'⟩ <;> rw [hp] at h <;> exact h

variable {Q : α → File → Prop} {bytes : List UInt8} {offset off : Nat}

theorem Ensures.mono (h : p.Ensures sup f E Q)
    (himp : ∀ a f', Q a f' → Q' a f') : p.Ensures sup f E Q' := by
  unfold Ensures at h ⊢
  split at h
  · exact himp _ _ h
  · exact h

theorem Ensures.weaken (h : p.Ensures sup f E Q) (himp : ∀ e, E e → E' e) :
    p.Ensures sup f E' Q := by
  unfold Ensures at h ⊢
  split at h
  · exact h
  · exact himp _ h

theorem ensures_readAt {Q : List UInt8 → File → Prop} {eof : ε}
    (hrea : f.read? off l = some bytes) (h : Q bytes f) : (readAt off l eof).Ensures sup f E Q := by
  rw [Ensures, readAt, exec, hrea]
  exact h

theorem ensures_writeAt {Q : Unit → File → Prop} (h : Q () (f.write off bytes)) :
    (writeAt off bytes).Ensures sup f E Q := h

theorem Ensures.ok (h : p.Ensures sup f E Q) (hexc : p.exec sup f = (.ok a, f')) : Q a f' := by
  rw [Ensures, hexc] at h
  exact h

theorem Ensures.exists_ok (h : p.Ensures sup f E Q) (hE : ∀ e, ¬E e) :
    ∃ a f', p.exec sup f = (.ok a, f') ∧ Q a f' := by
  unfold Ensures at h
  rcases hexc : p.exec sup f with ⟨e | a, f'⟩
  · rw [hexc] at h
    exact absurd h (hE e)
  · rw [hexc] at h
    exact ⟨a, f', rfl, h⟩

end

end Program

end Rustd.Base
