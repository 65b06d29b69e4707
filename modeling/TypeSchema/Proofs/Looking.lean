import TypeSchema.Command.Run
import TypeSchema.Files.Tree

/-!
Looking at a disk. To ask for directories, names and texts leaves a disk as it is, and so does the
search for the paths that a pattern names, which asks for nothing else.
-/
namespace TypeSchema

/-- An action that leaves the world as it is. -/
def Looks {σ α : Type} (x : StateM σ α) : Prop := ∀ world, (x.run world).2 = world

namespace Looks

variable {σ α β : Type}

theorem pure (a : α) : Looks (Pure.pure a : StateM σ α) := fun _ => rfl

theorem bind {x : StateM σ α} {f : α → StateM σ β} (hx : Looks x) (hf : ∀ a, Looks (f a)) :
    Looks (x >>= f) := by
  intro world
  change ((f (x.run world).1).run (x.run world).2).2 = world
  rw [hf, hx]

theorem map {x : StateM σ α} (f : α → β) (hx : Looks x) : Looks (f <$> x) := hx

theorem ite {c : Prop} [Decidable c] {x y : StateM σ α} (hx : Looks x) (hy : Looks y) :
    Looks (if c then x else y) := by
  split
  · exact hx
  · exact hy

theorem mapM {f : α → StateM σ β} (l : List α) (h : ∀ a, Looks (f a)) : Looks (l.mapM f) := by
  induction l with
  | nil => exact pure _
  | cons a l ih =>
    rw [List.mapM_cons]
    exact bind (h a) fun _ => bind ih fun _ => pure _

/-- What is run after a look runs in the same world. -/
theorem run_bind {x : StateM σ α} (h : Looks x) (f : α → StateM σ β) (world : σ) :
    (x >>= f).run world = (f (x.run world).1).run world := by
  change (f (x.run world).1).run (x.run world).2 = _
  rw [h world]

theorem run_mapM {f : α → StateM σ β} (l : List α) (h : ∀ a, Looks (f a)) (world : σ) :
    ((l.mapM f).run world).1 = l.map fun a => ((f a).run world).1 := by
  induction l with
  | nil => rfl
  | cons a l ih =>
    have hrest : Looks (l.mapM f) := mapM l h
    rw [List.mapM_cons, run_bind (h a), run_bind hrest, ih]
    rfl

end Looks

namespace Disk

variable {σ : Type}

/-! What is seen on a disk at a path. -/

def directoryAt? (disk : Disk (StateM σ)) (world : σ) (path : String) : Option Bool :=
  ((disk.isDirectory? path).run world).1

def namesAt (disk : Disk (StateM σ)) (world : σ) (path : String) :
    Except FileError (List String) :=
  ((disk.names path).run world).1

def textAt (disk : Disk (StateM σ)) (world : σ) (path : String) : Except FileError String :=
  ((disk.readText path).run world).1

/-- Whatever is asked of the disk, it stays as it is. -/
structure OnlyLooks (disk : Disk (StateM σ)) : Prop where
  isDirectory? : ∀ path, Looks (disk.isDirectory? path)
  names : ∀ path, Looks (disk.names path)
  readText : ∀ path, Looks (disk.readText path)

namespace OnlyLooks

variable {disk : Disk (StateM σ)} (h : disk.OnlyLooks) (directoriesOnly : Bool)
  {inside : String → List Pattern → StateM σ (List Hit)}
include h

theorem continueWith (hinside : ∀ path patterns, Looks (inside path patterns)) (path : String)
    (patterns : List Pattern) : Looks (disk.continueWith directoriesOnly inside path patterns) := by
  unfold Disk.continueWith
  split
  · split
    · exact (h.isDirectory? path).bind fun _ => .pure _
    · exact .pure _
  · exact hinside _ _

theorem matchName (hinside : ∀ path patterns, Looks (inside path patterns)) (path name : String)
    (patterns : List Pattern) :
    Looks (disk.matchName directoriesOnly inside path name patterns) := by
  unfold Disk.matchName
  split
  · exact .pure _
  · split
    · exact h.continueWith directoriesOnly hinside _ _
    · exact .pure _

theorem visit (hinside : ∀ path patterns, Looks (inside path patterns)) (path name : String)
    (patterns : List Pattern) : Looks (disk.visit directoriesOnly inside path name patterns) := by
  have hmatch := h.matchName directoriesOnly hinside path name
  unfold Disk.visit
  split
  · exact .pure _
  · split
    · refine (h.isDirectory? path).bind fun _ => .ite ?_ (.ite (.pure _) (hmatch _))
      have hhere (patterns : List Pattern) (here : List Hit) :
          Looks (do return here ++ (← inside path patterns)) := (hinside _ _).bind fun _ => .pure _
      exact .ite (hhere _ _) ((hmatch _).bind (hhere _))
    · exact hmatch _

theorem findWithin (levels : Nat) (directory : String) (patterns : List Pattern) :
    Looks (disk.findWithin directoriesOnly levels directory patterns) := by
  induction levels generalizing directory patterns with
  | zero => exact .pure _
  | succ levels ih =>
    cases patterns with
    | nil => exact .pure _
    | cons p rest =>
      have hcontinue := h.continueWith directoriesOnly ih
      unfold Disk.findWithin
      refine (h.isDirectory? directory).bind fun _ => ?_
      dsimp only
      cases p.name? with
      | some name =>
        have hfound (path : String) (found : Bool) :
            Looks (if found then
              disk.continueWith directoriesOnly (disk.findWithin directoriesOnly levels) path rest
              else Pure.pure []) := .ite (hcontinue _ _) (.pure _)
        exact .ite (hfound _ _) (.bind (.map _ (h.isDirectory? _)) (hfound _))
      | none =>
        refine .ite ((h.names _).bind fun names => ?_) (.pure _)
        cases names with
        | error e => exact .pure _
        | ok names =>
          refine .bind (.mapM _ fun _ => .ite (hcontinue _ _) (.pure _)) fun _ => ?_
          exact .bind (.mapM _ fun _ => h.visit directoriesOnly ih _ _ _) fun _ => .pure _

theorem find (text : String) : Looks (disk.find text) := by
  unfold Disk.find
  split
  · exact .pure _
  · exact .pure _
  · split
    · exact (h.findWithin _ _ _ _).bind fun _ => .pure _
    · exact (h.findWithin _ _ _ _).bind fun _ => .pure _

end OnlyLooks

end Disk

namespace Command

variable {σ : Type} {disk : Disk (StateM σ)} (h : disk.OnlyLooks)
include h

end Command

theorem Tree.onlyLooks_disk : Tree.disk.OnlyLooks where
  isDirectory? _ _ := rfl
  names _ _ := rfl
  readText _ _ := rfl

end TypeSchema
