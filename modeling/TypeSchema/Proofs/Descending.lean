import TypeSchema.Proofs.Finding

/-!
Searching one directory. A path in which no name is a pattern leads the search from one directory to
the next, and in the last one a star and an ending find the names with this ending, in alphabetical
order.
-/
namespace TypeSchema

namespace Pattern

/-- A character that stands for itself, whatever comes before or after it. -/
def isLiteral (c : Char) : Bool := c != '*' && c != '?' && c != '['

theorem isLiteral_iff {c : Char} : isLiteral c = true ↔ c ≠ '*' ∧ c ≠ '?' ∧ c ≠ '[' := by
  simp [isLiteral, and_assoc]

variable {cs : List Char} (hcs : ∀ c ∈ cs, isLiteral c = true)
include hcs

theorem exists_scan_append (position : Nat) (before : Option Char) (rest : List Char) :
    ∃ position' before', scan 0 position before (cs ++ rest) =
      (cs.map .char ++ ·) <$> scan 0 position' before' rest := by
  induction cs generalizing position before with
  | nil => exact ⟨position, before, by simp⟩
  | cons c cs ih =>
    obtain ⟨hc, hcs⟩ := List.forall_mem_cons.mp hcs
    obtain ⟨position', before', hscan⟩ := ih hcs (position + 1) (some c)
    refine ⟨position', before', ?_⟩
    rw [List.cons_append, scan]
    · rw [pure_bind]
      dsimp only
      rw [hscan, map_eq_pure_bind, map_eq_pure_bind, bind_assoc]
      simp only [pure_bind, List.map_cons, List.cons_append]
    · exact (isLiteral_iff.mp hc).2.1
    · exact (isLiteral_iff.mp hc).1
    · exact (isLiteral_iff.mp hc).2.2

theorem scan_literal (position : Nat) (before : Option Char) :
    scan 0 position before cs = .ok (cs.map .char) := by
  obtain ⟨position', before', hscan⟩ := exists_scan_append hcs position before []
  rw [List.append_nil] at hscan
  rw [hscan]
  simp [scan, pure, Except.pure]

omit hcs in
theorem name?_map_char (cs : List Char) : name? (cs.map .char) = some cs := by
  induction cs with
  | nil => rfl
  | cons c cs ih => simp [name?, ih]

theorem scan_star {ending : List Char} (hending : ∀ c ∈ ending, isLiteral c = true)
    (position : Nat) (before : Option Char) :
    scan 0 position before (cs ++ '*' :: ending) = .ok (cs.map .char ++ endingIn ending) := by
  obtain ⟨position', before', hscan⟩ := exists_scan_append hcs position before ('*' :: ending)
  -- the stars that follow would be one pattern with it
  have hstars : ending.takeWhile (· == '*') = [] := by
    cases ending with
    | nil => rfl
    | cons c ending => simp [(isLiteral_iff.mp (hending c List.mem_cons_self)).1]
  rw [hscan, scan]
  dsimp only
  rw [hstars]
  simp only [pure_bind, scan_literal hending]
  rfl

omit hcs in
theorem parse_star {ending : String} (hending : ∀ c ∈ ending.toList, isLiteral c = true) :
    parse ("*" ++ ending) = .ok (endingIn ending.toList) := by
  rw [parse, String.toList_append]
  exact scan_star (List.forall_mem_nil _) hending 0 none

omit hcs in
theorem mapM_parse_literal {pieces : List String}
    (h : ∀ piece ∈ pieces, ∀ c ∈ piece.toList, isLiteral c = true) :
    pieces.mapM parse = .ok (pieces.map (·.toList.map .char)) := by
  induction pieces with
  | nil => rfl
  | cons piece pieces ih =>
    obtain ⟨hpiece, hpieces⟩ := List.forall_mem_cons.mp h
    rw [List.mapM_cons, ih hpieces, parse, scan_literal hpiece]
    rfl

end Pattern

namespace Path

variable {directory name : String}

theorem join_ne_empty (hslash : '/' ∉ name.toList) (hempty : name ≠ "") :
    join directory name ≠ "" := by
  rw [join_eq directory hslash]
  simp [hempty]

theorem getLast?_join_ne (hslash : '/' ∉ name.toList) (hempty : name ≠ "") :
    (join directory name).toList.getLast? ≠ some '/' := by
  intro h
  rw [join_eq directory hslash, String.toList_append,
    List.getLast?_append_of_ne_nil _ (by simpa using hempty)] at h
  exact hslash (List.mem_of_getLast? h)

theorem before_join (hslash : '/' ∉ name.toList) (hempty : name ≠ "") :
    before (join directory name) = join directory name ++ "/" := by
  rw [before, if_neg]
  simp [join_ne_empty hslash hempty, getLast?_join_ne hslash hempty]

/-- The path to look a directory up by: nothing stands for the current one. -/
def orHere (directory : String) : String := if directory = "" then "." else directory

/-- A piece of a path in which nothing is a pattern, and which is not the current directory. -/
structure IsPlain (piece : String) : Prop where
  noSlash : '/' ∉ piece.toList
  nonempty : piece ≠ ""
  notHere : piece ≠ "."
  literal : ∀ c ∈ piece.toList, Pattern.isLiteral c = true

end Path

namespace Disk

variable {σ : Type} (disk : Disk (StateM σ)) (world : σ)

def GoesOn (directory piece : String) : Prop :=
  if piece = ".." then disk.directoryAt? world (Path.orHere directory) = some true
  else disk.directoryAt? world (Path.join directory piece) ≠ none

/-- These pieces lead from the root, or else from the current directory, to a directory. -/
inductive Leads : Bool → List String → String → Prop where
  | here : Leads false [] ""
  | root : Leads true [] "/"
  | step {absolute : Bool} {pieces : List String} {directory piece : String} :
    Leads absolute pieces directory → Path.IsPlain piece → disk.GoesOn world directory piece →
    Leads absolute (pieces ++ [piece]) (Path.join directory piece)

namespace Leads

variable {disk world} {absolute : Bool} {pieces : List String} {directory : String}
  (h : disk.Leads world absolute pieces directory)
include h

theorem pieces_join {last : String} (hlast : '/' ∉ last.toList) :
    Path.pieces (Path.join directory last) =
      (if absolute then [""] else []) ++ pieces ++ [last] := by
  induction h generalizing last with
  | here => simp [Path.join_eq _ hlast, Path.before, Path.pieces_of_not_mem hlast]
  | root =>
    have hbefore : Path.before "/" = "" ++ "/" := by decide
    rw [Path.join_eq _ hlast, hbefore, Path.pieces_append_slash, Path.pieces_of_not_mem hlast]
    rfl
  | step _ hpiece _ ih =>
    rw [Path.join_eq _ hlast, Path.before_join hpiece.noSlash hpiece.nonempty,
      Path.pieces_append_slash, ih hpiece.noSlash, Path.pieces_of_not_mem hlast]
    simp

theorem isAbsolute_before : Path.isAbsolute (Path.before directory) = absolute := by
  induction h with
  | here => decide
  | root => decide
  | @step _ _ directory piece _ hpiece _ ih =>
    have hne : (Path.join directory piece).toList ≠ [] := by
      simpa using Path.join_ne_empty hpiece.noSlash hpiece.nonempty
    rw [← ih, ← Path.isAbsolute_join directory hpiece.noSlash,
      Path.before_join hpiece.noSlash hpiece.nonempty, Path.isAbsolute, Path.isAbsolute,
      String.toList_append, List.head?_append_of_ne_nil _ hne]

theorem literal_before : ∀ c ∈ (Path.before directory).toList, Pattern.isLiteral c = true := by
  have hslash : Pattern.isLiteral '/' = true := by decide
  induction h with
  | here => simp [Path.before]
  | root => simpa [Path.before] using hslash
  | step _ hpiece _ ih =>
    rw [Path.before_join hpiece.noSlash hpiece.nonempty, Path.join_eq _ hpiece.noSlash]
    intro c hc
    simp only [String.toList_append, List.mem_append] at hc
    rcases hc with (hc | hc) | hc
    · exact ih c hc
    · exact hpiece.literal c hc
    · obtain rfl : c = '/' := by simpa using hc
      exact hslash

theorem literal_pieces : ∀ piece ∈ pieces, ∀ c ∈ piece.toList, Pattern.isLiteral c = true := by
  induction h with
  | here => simp
  | root => simp
  | step _ hpiece _ ih => simpa [or_imp, forall_and] using ⟨ih, hpiece.literal⟩

theorem parse_join_star {ending : String} (hslash : '/' ∉ ending.toList)
    (hending : ∀ c ∈ ending.toList, Pattern.isLiteral c = true) :
    Pattern.parse (Path.join directory ("*" ++ ending)) =
      .ok ((Path.before directory).toList.map .char ++ Pattern.endingIn ending.toList) := by
  rw [Pattern.parse, Path.join_eq _ (by simpa using hslash), String.toList_append,
    String.toList_append]
  exact Pattern.scan_star h.literal_before hending 0 none

theorem mapM_parse_patternPieces {ending : String} (hslash : '/' ∉ ending.toList)
    (hending : ∀ c ∈ ending.toList, Pattern.isLiteral c = true) :
    (patternPieces (Path.join directory ("*" ++ ending))).mapM Pattern.parse =
      .ok (((if absolute then [""] else []) ++ pieces).map (·.toList.map .char) ++
        [Pattern.endingIn ending.toList]) := by
  have hpieces : patternPieces (Path.join directory ("*" ++ ending)) =
      (if absolute then [""] else []) ++ pieces ++ ["*" ++ ending] := by
    simp [patternPieces, h.pieces_join (by simpa using hslash : '/' ∉ ("*" ++ ending).toList)]
  have hliteral : ∀ piece ∈ (if absolute then [""] else []) ++ pieces,
      ∀ c ∈ piece.toList, Pattern.isLiteral c = true := by
    have := h.literal_pieces
    cases absolute <;> simpa using this
  rw [hpieces, List.mapM_append, Pattern.mapM_parse_literal hliteral, List.mapM_cons,
    Pattern.parse_star hending]
  rfl

theorem entryPath_orHere (name : String) :
    entryPath (Path.orHere directory) name = Path.join directory name := by
  cases h with
  | here =>
    have hhere : Path.trimReversed (Path.pieces ".").reverse = ["."] := by decide
    simp [Path.orHere, entryPath, hhere, Path.join]
  | root =>
    have hroot : Path.trimReversed (Path.pieces "/").reverse = [] := by decide
    simp [Path.orHere, entryPath, hroot]
  | @step _ _ directory piece h hpiece _ =>
    have hlast : Path.trimReversed (Path.pieces (Path.join directory piece)).reverse ≠ ["."] := by
      rw [h.pieces_join hpiece.noSlash, List.reverse_append, List.reverse_singleton,
        List.singleton_append, Path.trimReversed_cons hpiece.nonempty hpiece.notHere]
      simp [hpiece.notHere]
    rw [Path.orHere, if_neg (Path.join_ne_empty hpiece.noSlash hpiece.nonempty), entryPath,
      if_neg hlast]

end Leads

section
variable {disk world} (h : disk.OnlyLooks) {absolute : Bool} {pieces : List String}
  {directory : String} (hleads : disk.Leads world absolute pieces directory)
include h hleads

theorem run_findWithin_piece {piece : String} (hpiece : Path.IsPlain piece)
    (hgoes : disk.GoesOn world directory piece) (levels : Nat) (p : Pattern) (rest : List Pattern) :
    (disk.findWithin false (levels + 1) (Path.orHere directory)
      (piece.toList.map .char :: p :: rest)).run world =
        (disk.findWithin false levels (Path.join directory piece) (p :: rest)).run world := by
  rw [findWithin, (h.isDirectory? _).run_bind, ← directoryAt?, Pattern.name?_map_char]
  dsimp only
  rw [String.ofList_toList, hleads.entryPath_orHere]
  unfold GoesOn at hgoes
  split at hgoes
  · rename_i habove
    rw [if_pos (by simp [habove]), hgoes]
    rfl
  · rename_i habove
    obtain ⟨isDirectory, hentry⟩ := Option.ne_none_iff_exists'.mp hgoes
    have hfound : (((·.isSome) <$> disk.isDirectory? (Path.join directory piece)).run world).1 =
        true := congrArg Option.isSome hentry
    rw [if_neg (by simp [habove, hpiece.notHere]), (Looks.map _ (h.isDirectory? _)).run_bind,
      hfound]
    rfl

/-- The search comes down to the directory that the pieces lead to. -/
theorem run_findWithin_leads (levels : Nat) (p : Pattern) (rest : List Pattern) :
    (disk.findWithin false (pieces.length + levels) (if absolute then "/" else ".")
      (pieces.map (·.toList.map .char) ++ p :: rest)).run world =
        (disk.findWithin false levels (Path.orHere directory) (p :: rest)).run world := by
  induction hleads generalizing levels p rest with
  | here => simp [Path.orHere]
  | root => simp [Path.orHere]
  | @step _ pieces _ piece hleads hpiece hgoes ih =>
    have hlevels : (pieces ++ [piece]).length + levels = pieces.length + (levels + 1) := by
      rw [List.length_append, List.length_singleton]
      omega
    rw [hlevels, List.map_append, List.append_assoc, List.map_singleton, List.singleton_append, ih,
      run_findWithin_piece h hleads hpiece hgoes,
      Path.orHere, if_neg (Path.join_ne_empty hpiece.noSlash hpiece.nonempty)]

end

theorem run_findWithin_last {disk : Disk (StateM σ)} {world : σ} (h : disk.OnlyLooks) (levels : Nat)
    {directory : String} (hdirectory : disk.directoryAt? world directory = some true)
    {names : List String} (hnames : disk.namesAt world directory = .ok names) {p : Pattern}
    (hname : p.name? = none) (hrecursive : p.isRecursive = false)
    (hdot : p.head? ≠ some (.char '.')) :
    ((disk.findWithin false (levels + 1) directory [p]).run world).1 =
      ((names.mergeSort (· ≤ ·)).filter (p.isMatch ·.toList)).map
        fun name => .ok (entryPath directory name) := by
  have hvisit (name : String) :
      disk.visit false (disk.findWithin false levels) (entryPath directory name) name [p] =
        pure (if p.isMatch name.toList then [.ok (entryPath directory name)] else []) := by
    simp only [visit, hrecursive, matchName, continueWith]
    cases p.isMatch name.toList <;> rfl
  rw [findWithin, (h.isDirectory? _).run_bind, ← directoryAt?, hdirectory]
  simp only [hname, if_neg hdot, List.mapM_nil, pure_bind, hvisit, List.mapM_pure,
    beq_self_eq_true, if_true]
  rw [(h.names _).run_bind, ← namesAt, hnames]
  dsimp only
  generalize names.mergeSort (· ≤ ·) = names
  change (names.map fun name => if p.isMatch name.toList then [Except.ok (entryPath directory name)]
    else []).flatten = _
  induction names with
  | nil => rfl
  | cons name names ih =>
    rw [List.map_cons, List.flatten_cons, ih, List.filter_cons]
    cases p.isMatch name.toList <;> rfl

theorem run_findWithin_endingIn {disk : Disk (StateM σ)} {world : σ} (h : disk.OnlyLooks)
    {absolute : Bool} {pieces : List String} {directory : String}
    (hleads : disk.Leads world absolute pieces directory)
    (hdirectory : disk.directoryAt? world (Path.orHere directory) = some true)
    {names : List String} (hnames : disk.namesAt world (Path.orHere directory) = .ok names)
    (ending : List Char) (levels : Nat) :
    ((disk.findWithin false (pieces.length + (levels + 1)) (if absolute then "/" else ".")
      (pieces.map (·.toList.map .char) ++ [Pattern.endingIn ending])).run world).1 =
        ((names.mergeSort (· ≤ ·)).filter fun name => ending.isSuffixOf name.toList).map
          fun name => .ok (Path.join directory name) := by
  have hmatch (name : String) :
      (Pattern.endingIn ending).isMatch name.toList = ending.isSuffixOf name.toList := by
    rw [Bool.eq_iff_iff, Pattern.isMatch_endingIn_iff, List.isSuffixOf_iff_suffix]
  have hentry : entryPath (Path.orHere directory) = Path.join directory :=
    funext hleads.entryPath_orHere
  rw [run_findWithin_leads h hleads, run_findWithin_last h levels hdirectory hnames rfl
    (Pattern.isRecursive_endingIn ending) (by simp [Pattern.endingIn]), hentry]
  simp only [hmatch]

/-- In a directory that plain pieces lead to, a star and an ending find the names with the
ending. -/
theorem find_of_leads {disk : Disk (StateM σ)} {world : σ} (h : disk.OnlyLooks) {absolute : Bool}
    {pieces : List String} {directory : String}
    (hleads : disk.Leads world absolute pieces directory)
    (hdirectory : disk.directoryAt? world (Path.orHere directory) = some true)
    {names : List String} (hnames : disk.namesAt world (Path.orHere directory) = .ok names)
    {ending : String} (hslash : '/' ∉ ending.toList)
    (hending : ∀ c ∈ ending.toList, Pattern.isLiteral c = true) :
    ((disk.find (Path.join directory ("*" ++ ending))).run world).1 =
      .ok (((names.mergeSort (· ≤ ·)).filter fun name => ending.toList.isSuffixOf name.toList).map
        fun name => .ok (Path.join directory name)) := by
  have hname : '/' ∉ ("*" ++ ending).toList := by simpa using hslash
  have hlast : ((Path.join directory ("*" ++ ending)).toList.getLast? == some '/') = false :=
    beq_eq_false_iff_ne.mpr (Path.getLast?_join_ne hname (by simp))
  have hfound := run_findWithin_endingIn h hleads hdirectory hnames ending.toList
  unfold find
  rw [hleads.parse_join_star hslash hending, hleads.mapM_parse_patternPieces hslash hending]
  dsimp only
  rw [hlast, Path.isAbsolute_join _ hname, hleads.isAbsolute_before]
  -- an absolute pattern has an empty piece before the first slash
  cases absolute with
  | false =>
    rw [show maxPathLength + _ = pieces.length + (maxPathLength + 1) by simp; omega]
    exact congrArg Except.ok (hfound maxPathLength)
  | true =>
    rw [show maxPathLength + _ = pieces.length + (maxPathLength + 1 + 1) by simp; omega]
    exact congrArg Except.ok (hfound (maxPathLength + 1))

end Disk

end TypeSchema
