import TypeSchema.Files.Tree
import TypeSchema.Proofs.Except

/-!
Names in a directory. The path to a name has the pieces of the directory before it and the name as
its last piece, and in a tree of files the names in one directory lie side by side.
-/
namespace TypeSchema

namespace Text

variable {separator : Char}

theorem split_append_cons (separator : Char) (before after : List Char) :
    split separator (before ++ separator :: after) =
      split separator before ++ split separator after := by
  induction before with
  | nil => simp [split]
  | cons c rest ih =>
    obtain ⟨piece, pieces, hp⟩ := List.exists_cons_of_ne_nil (split_ne_nil separator rest)
    simp only [List.cons_append, split, ih, hp]
    split <;> rfl

theorem split_of_not_mem {text : List Char} (h : separator ∉ text) :
    split separator text = [text] := by
  induction text with
  | nil => rfl
  | cons c rest ih =>
    have hc : c ≠ separator := fun hc => h (hc ▸ List.mem_cons_self)
    rw [split, if_neg hc, ih (mt (List.mem_cons_of_mem c) h)]

end Text

namespace Path

variable {name : String}

/-- What stands before a name in the path to it from a directory. -/
def before (directory : String) : String :=
  if directory = "" || directory.toList.getLast? == some '/' then directory else directory ++ "/"

theorem before_cases (directory : String) :
    directory = "" ∧ before directory = "" ∨
    (∃ above, directory = above ++ "/" ∧ before directory = above ++ "/") ∨
    before directory = directory ++ "/" := by
  unfold before
  split
  · rename_i h
    rcases Bool.or_eq_true_iff.mp h with h | h
    · exact .inl (by simpa using h)
    · obtain ⟨above, habove⟩ := List.getLast?_eq_some_iff.mp (beq_iff_eq.mp h)
      have hdirectory : directory = String.ofList above ++ "/" := by
        rw [← String.toList_inj]
        simpa using habove
      exact .inr (.inl ⟨_, hdirectory, hdirectory⟩)
  · exact .inr (.inr rfl)

theorem before_append_slash (above : String) : before (above ++ "/") = above ++ "/" := by
  simp [before]

/-- Every path ends in a name, which may be empty. -/
theorem exists_eq_before_append (path : String) :
    ∃ directory name : String, '/' ∉ name.toList ∧ path = before directory ++ name := by
  by_cases h : '/' ∈ path.toList
  · obtain ⟨name, above, hsplit, hname⟩ := List.eq_append_cons_of_mem (List.mem_reverse.mpr h)
    refine ⟨String.ofList above.reverse ++ "/", String.ofList name.reverse,
      by simpa using hname, ?_⟩
    rw [before_append_slash, ← String.toList_inj]
    simpa using congrArg List.reverse hsplit
  · exact ⟨"", path, h, by simp [before]⟩

theorem isAbsolute_of_not_mem (h : '/' ∉ name.toList) : isAbsolute name = false :=
  beq_eq_false_iff_ne.mpr fun hhead => h (List.mem_of_head? hhead)

theorem join_eq (directory : String) (h : '/' ∉ name.toList) :
    join directory name = before directory ++ name := by
  unfold join before
  rw [isAbsolute_of_not_mem h, if_neg Bool.false_ne_true]
  split <;> rfl

theorem suffix_join (directory name : String) : name.toList <:+ (join directory name).toList := by
  unfold join
  split
  · exact List.suffix_refl _
  · split
    · rw [String.toList_append]
      exact List.suffix_append _ _
    · rw [String.toList_append]
      exact List.suffix_append _ _

theorem pieces_of_not_mem (h : '/' ∉ name.toList) : pieces name = [name] := by
  simp [pieces, Text.split_of_not_mem h]

theorem pieces_append_slash (above name : String) :
    pieces (above ++ "/" ++ name) = pieces above ++ pieces name := by
  simp [pieces, Text.split_append_cons]

/-- The name is the last piece, and the others are those of the directory. -/
theorem exists_pieces_join (directory : String) :
    ∃ others, ∀ name, '/' ∉ name.toList → pieces (join directory name) = others ++ [name] := by
  rcases before_cases directory with ⟨-, h⟩ | ⟨above, -, h⟩ | h
  · exact ⟨[], fun name hname => by rw [join_eq _ hname, h, String.empty_append,
      pieces_of_not_mem hname, List.nil_append]⟩
  · exact ⟨pieces above, fun name hname => by
      rw [join_eq _ hname, h, pieces_append_slash, pieces_of_not_mem hname]⟩
  · exact ⟨pieces directory, fun name hname => by
      rw [join_eq _ hname, h, pieces_append_slash, pieces_of_not_mem hname]⟩

/-- A text by which an entry of a directory can be named. -/
structure IsName (name : String) : Prop where
  noSlash : '/' ∉ name.toList
  nonempty : name ≠ ""
  notHere : name ≠ "."
  notAbove : name ≠ ".."

theorem trimReversed_cons {piece : String} (hempty : piece ≠ "") (hhere : piece ≠ ".")
    (rest : List String) : trimReversed (piece :: rest) = piece :: rest := by
  cases rest <;> simp [trimReversed, hempty, hhere]

theorem fileName?_join (directory : String) (h : IsName name) :
    fileName? (join directory name) = some name := by
  obtain ⟨others, hpieces⟩ := exists_pieces_join directory
  rw [fileName?, hpieces name h.noSlash, List.reverse_append, List.reverse_singleton,
    List.singleton_append, trimReversed_cons h.nonempty h.notHere]
  simp [h.notHere, h.notAbove]

theorem isAbsolute_join (directory : String) (h : '/' ∉ name.toList) :
    isAbsolute (join directory name) = isAbsolute (before directory) := by
  rw [join_eq directory h, isAbsolute, isAbsolute, String.toList_append]
  cases hbefore : (before directory).toList with
  | nil => exact isAbsolute_of_not_mem h
  | cons c rest => rfl

end Path

namespace Tree

variable {tree : Tree}

theorem follow_append (tree : Tree) (site : Site) (pieces more : List String) :
    tree.follow site (pieces ++ more) =
      tree.follow site pieces >>= fun place => tree.follow place more := by
  induction pieces generalizing site with
  | nil => rfl
  | cons piece rest ih =>
    simp only [List.cons_append, follow, ih]
    cases tree.node? site with
    | none => rfl
    | some node =>
      cases node with
      | file text => rfl
      | directory =>
        dsimp only
        split
        · rfl
        · split
          · rfl
          · split <;> rfl

theorem follow_name_eq_ok_iff {place site : Site} {name : String} (h : Path.IsName name) :
    tree.follow place [name] = .ok site ↔
      tree.node? place = some .directory ∧ name.utf8ByteSize ≤ maxNameSize ∧
        site = place ++ [name] := by
  unfold follow
  cases tree.node? place with
  | none => simp
  | some node =>
    cases node with
    | file text => simp
    | directory =>
      simp only [h.nonempty, h.notHere, h.notAbove, decide_false, Bool.or_self, follow]
      by_cases hsize : name.utf8ByteSize ≤ maxNameSize
      · simp [hsize, Nat.not_lt.mpr hsize, pure, Except.pure, eq_comm]
      · simp [hsize, Nat.lt_of_not_le hsize]

theorem locate_eq_ok_iff {path : String} {site : Site} :
    tree.locate path = .ok site ↔ path.utf8ByteSize ≤ maxPathSize ∧ path ≠ "" ∧
      tree.follow (if Path.isAbsolute path then [] else tree.current) (Path.pieces path) =
        .ok site := by
  unfold locate checkSize
  by_cases hsize : path.utf8ByteSize ≤ maxPathSize
  · by_cases hpath : path = ""
    · simp [hpath, bind, Except.bind, pure, Except.pure]
    · simp [hsize, Nat.not_lt.mpr hsize, hpath, bind, Except.bind, pure, Except.pure]
  · simp [hsize, Nat.lt_of_not_le hsize, bind, Except.bind]

/-- Where a path to a name leads, a path to a name that is no longer leads to the same directory. -/
theorem exists_of_locate_join {directory name : String} {site : Site} (hname : Path.IsName name)
    (h : tree.locate (Path.join directory name) = .ok site) :
    ∃ place, site = place ++ [name] ∧ ∀ other, Path.IsName other →
      other.utf8ByteSize ≤ name.utf8ByteSize →
        tree.locate (Path.join directory other) = .ok (place ++ [other]) := by
  obtain ⟨others, hpieces⟩ := Path.exists_pieces_join directory
  rw [locate_eq_ok_iff, Path.isAbsolute_join _ hname.noSlash, hpieces name hname.noSlash,
    follow_append, Except.bind_eq_ok_iff] at h
  obtain ⟨hsize, -, place, hplace, hfollow⟩ := h
  obtain ⟨hdirectory, hnameSize, hsite⟩ := (follow_name_eq_ok_iff hname).mp hfollow
  refine ⟨place, hsite, fun other hother hshorter => locate_eq_ok_iff.mpr ⟨?_, ?_, ?_⟩⟩
  · rw [Path.join_eq _ hother.noSlash, String.utf8ByteSize_append]
    rw [Path.join_eq _ hname.noSlash, String.utf8ByteSize_append] at hsize
    omega
  · rw [Path.join_eq _ hother.noSlash]
    simp [hother.nonempty]
  · rw [Path.isAbsolute_join _ hother.noSlash, hpieces other hother.noSlash, follow_append,
      Except.bind_eq_ok_iff]
    exact ⟨place, hplace, (follow_name_eq_ok_iff hother).mpr
      ⟨hdirectory, Nat.le_trans hshorter hnameSize, rfl⟩⟩

end Tree

end TypeSchema
