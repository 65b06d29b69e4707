import TypeSchema.Proofs.Looking
import TypeSchema.Proofs.Paths

/-!
What a path pattern finds. Every path that is found ends in a name that the last piece of the
pattern matches, unless that piece stands for any number of directories.
-/
namespace TypeSchema

/-- Whatever the world is, the result of an action is of a kind. -/
def Gives {σ α : Type} (P : α → Prop) (x : StateM σ α) : Prop := ∀ world, P (x.run world).1

namespace Gives

variable {σ α β : Type} {P : α → Prop} {Q : β → Prop}

theorem pure {a : α} (h : P a) : Gives P (Pure.pure a : StateM σ α) := fun _ => h

theorem bind {x : StateM σ α} {f : α → StateM σ β} (hx : Gives P x)
    (hf : ∀ a, P a → Gives Q (f a)) : Gives Q (x >>= f) :=
  fun world => hf _ (hx world) (x.run world).2

theorem of_bind {x : StateM σ α} {f : α → StateM σ β} (hf : ∀ a, Gives Q (f a)) :
    Gives Q (x >>= f) :=
  fun world => hf _ (x.run world).2

theorem ite {c : Prop} [Decidable c] {x y : StateM σ α} (hx : c → Gives P x)
    (hy : ¬ c → Gives P y) : Gives P (if c then x else y) := by
  split
  · exact hx ‹_›
  · exact hy ‹_›

theorem mapM {f : α → StateM σ β} (l : List α) (h : ∀ a ∈ l, Gives Q (f a)) :
    Gives (fun bs => ∀ b ∈ bs, Q b) (l.mapM f) := by
  induction l with
  | nil => exact pure (by simp)
  | cons a l ih =>
    rw [List.mapM_cons]
    refine bind (h a List.mem_cons_self) fun b hb =>
      bind (ih fun a ha => h a (List.mem_cons_of_mem _ ha)) fun bs hbs => pure ?_
    simpa using ⟨hb, hbs⟩

end Gives

namespace Pattern

/-- A path ends in a name that a pattern matches. -/
def MatchesEnd (p : Pattern) (path : String) : Prop :=
  ∃ name : String, p.isMatch name.toList = true ∧ name.toList <:+ path.toList

theorem someSuffix_iff {matched : List Char → Bool} {name : List Char} :
    someSuffix matched name = true ↔ ∃ rest, rest <:+ name ∧ matched rest = true := by
  induction name with
  | nil => simp [someSuffix]
  | cons c name ih =>
    rw [someSuffix, Bool.or_eq_true, ih]
    constructor
    · rintro (h | ⟨rest, hrest, h⟩)
      · exact ⟨_, List.suffix_refl _, h⟩
      · exact ⟨rest, hrest.trans (List.suffix_cons c name), h⟩
    · rintro ⟨rest, hrest, h⟩
      rcases List.suffix_cons_iff.mp hrest with rfl | hrest
      · exact .inl h
      · exact .inr ⟨rest, hrest, h⟩

theorem isMatch_map_char {text name : List Char} :
    isMatch (text.map .char) name = true ↔ text = name := by
  induction text generalizing name with
  | nil => cases name <;> simp [isMatch]
  | cons c text ih =>
    cases name with
    | nil => simp [isMatch]
    | cons d name => simp [isMatch, ih]

/-- A star and a text. -/
def endingIn (text : List Char) : Pattern := .anySequence :: text.map .char

theorem isMatch_endingIn_iff {text name : List Char} :
    (endingIn text).isMatch name = true ↔ text <:+ name := by
  simp [endingIn, isMatch, someSuffix_iff, isMatch_map_char]

theorem isRecursive_endingIn (text : List Char) : (endingIn text).isRecursive = false := by
  simp [endingIn, isRecursive]

end Pattern

namespace Disk

variable {σ : Type} (disk : Disk (StateM σ)) (directoriesOnly : Bool)

theorem mem_paths_iff {hits : List Hit} {path : String} : path ∈ paths hits ↔ .ok path ∈ hits := by
  rw [paths, List.mem_filterMap]
  constructor
  · rintro ⟨_ | found, hfound, heq⟩
    · cases heq
    · cases heq
      exact hfound
  · exact fun h => ⟨_, h, rfl⟩

theorem suffix_entryPath (directory name : String) :
    name.toList <:+ (entryPath directory name).toList := by
  unfold entryPath
  split
  · exact List.suffix_refl _
  · exact Path.suffix_join directory name

abbrev FindsOnly (P : String → Prop) (x : StateM σ (List Hit)) : Prop :=
  Gives (fun hits => ∀ path, .ok path ∈ hits → P path) x

theorem findsOnly_mapM_bind {P : String → Prop} {f : String → StateM σ (List Hit)}
    {g : List (List Hit) → StateM σ (List Hit)} (names : List String)
    (hf : ∀ name, FindsOnly P (f name))
    (hg : ∀ found, (∀ path, .ok path ∈ found.flatten → P path) → FindsOnly P (g found)) :
    FindsOnly P (names.mapM f >>= g) := by
  refine .bind (.mapM names fun name _ => hf name) fun found hfound => hg found ?_
  intro path hpath
  obtain ⟨hits, hhits, hpath⟩ := List.mem_flatten.mp hpath
  exact hfound hits hhits path hpath

theorem getLast?_dropRecursive {p : Pattern} (hp : p.isRecursive = false) {patterns : List Pattern}
    (h : patterns.getLast? = some p) : (dropRecursive patterns).getLast? = some p := by
  induction patterns with
  | nil => exact h
  | cons q rest ih =>
    rw [dropRecursive]
    split
    · rename_i hq
      cases rest with
      | nil => simp_all
      | cons r rest => exact ih (by simpa using h)
    · exact h

section
variable {p : Pattern} (hp : p.isRecursive = false)
  {inside : String → List Pattern → StateM σ (List Hit)}
  (hinside : ∀ path patterns, patterns.getLast? = some p →
    FindsOnly p.MatchesEnd (inside path patterns))
include hinside

theorem findsOnly_continueWith {path : String} {q : Pattern} {patterns : List Pattern}
    (hlast : (q :: patterns).getLast? = some p) (hpath : q.MatchesEnd path) :
    FindsOnly p.MatchesEnd (disk.continueWith directoriesOnly inside path patterns) := by
  unfold continueWith
  cases patterns with
  | nil =>
    obtain rfl : q = p := by simpa using hlast
    refine .ite (fun _ => .of_bind fun _ => .pure ?_) fun _ => .pure (by simpa using hpath)
    split
    · simpa using hpath
    · simp
  | cons r patterns => exact hinside _ _ (by simpa using hlast)

theorem findsOnly_matchName {path name : String} (hpath : name.toList <:+ path.toList)
    {patterns : List Pattern} (hlast : patterns.getLast? = some p) :
    FindsOnly p.MatchesEnd (disk.matchName directoriesOnly inside path name patterns) := by
  unfold matchName
  cases patterns with
  | nil => exact .pure (by simp)
  | cons q rest =>
    exact .ite (fun hmatch => disk.findsOnly_continueWith directoriesOnly hinside hlast
      ⟨name, hmatch, hpath⟩) fun _ => .pure (by simp)

include hp in
theorem findsOnly_visit {path name : String} (hpath : name.toList <:+ path.toList)
    {patterns : List Pattern} (hlast : patterns.getLast? = some p) :
    FindsOnly p.MatchesEnd (disk.visit directoriesOnly inside path name patterns) := by
  have hmatch {patterns : List Pattern} (hlast : patterns.getLast? = some p) :=
    disk.findsOnly_matchName directoriesOnly hinside hpath hlast
  unfold visit
  cases patterns with
  | nil => exact .pure (by simp)
  | cons q rest =>
    refine .ite (fun _ => ?_) fun _ => hmatch hlast
    have hrest := getLast?_dropRecursive hp hlast
    -- something is left, since the last pattern is not recursive
    obtain ⟨r, rest', hr⟩ : ∃ r rest', dropRecursive (q :: rest) = r :: rest' :=
      List.exists_cons_of_ne_nil fun hnil => by simp [hnil] at hrest
    rw [hr] at hrest ⊢
    refine .of_bind fun _ => .ite (fun _ => ?_) fun _ => hmatch hrest
    refine .bind (hmatch hrest) fun here hhere => ?_
    refine .bind (hinside path (q :: r :: rest') (by simpa using hrest)) fun below hbelow =>
      .pure ?_
    simpa [or_imp, forall_and] using ⟨hhere, hbelow⟩

end

/-- Every step adds a name to the path, and at the last one it is a name that the last pattern
matches. -/
theorem findsOnly_findWithin {p : Pattern} (hp : p.isRecursive = false) (levels : Nat)
    (directory : String) {patterns : List Pattern} (hlast : patterns.getLast? = some p) :
    FindsOnly p.MatchesEnd (disk.findWithin directoriesOnly levels directory patterns) := by
  induction levels generalizing directory patterns with
  | zero => exact .pure (by simp)
  | succ levels ih =>
    cases patterns with
    | nil => exact .pure (by simp)
    | cons q rest =>
      have hinside (path : String) (patterns : List Pattern) (h : patterns.getLast? = some p) :=
        ih path h
      have hcontinue {path name : String} (hmatch : q.isMatch name.toList = true)
          (hpath : name.toList <:+ path.toList) :=
        disk.findsOnly_continueWith directoriesOnly hinside hlast ⟨name, hmatch, hpath⟩
      unfold findWithin
      refine .of_bind fun _ => ?_
      dsimp only
      cases hname : q.name? with
      | some name =>
        have hfound (found : Bool) : FindsOnly p.MatchesEnd (if found then
            disk.continueWith directoriesOnly (disk.findWithin directoriesOnly levels)
              (entryPath directory (String.ofList name)) rest else pure []) :=
          .ite (fun _ => hcontinue (by simpa using Pattern.isMatch_of_name? hname)
            (suffix_entryPath _ _)) fun _ => .pure (by simp)
        exact .ite (fun _ => hfound _) fun _ => .of_bind fun _ => hfound _
      | none =>
        refine .ite (fun _ => .of_bind fun names => ?_) fun _ => .pure (by simp)
        cases names with
        | error e => exact .pure (by simp)
        | ok names =>
          refine findsOnly_mapM_bind _ (fun name => ?_) fun special hspecial =>
            findsOnly_mapM_bind _ (fun name => ?_) fun found hfound => .pure ?_
          · exact .ite (fun hmatch => hcontinue hmatch (Path.suffix_join _ _)) fun _ =>
              .pure (by simp)
          · exact disk.findsOnly_visit directoriesOnly hp hinside (suffix_entryPath _ _) hlast
          · intro path hpath
            exact (List.mem_append.mp hpath).elim (hspecial path) (hfound path)

theorem findWithin_nil (levels : Nat) (directory : String) :
    disk.findWithin directoriesOnly levels directory [] = pure [] := by
  cases levels <;> rfl

theorem getLast?_of_mapM {pieces : List String} {patterns : List Pattern} {last : String}
    {p : Pattern} (h : pieces.mapM Pattern.parse = .ok patterns)
    (hlast : pieces.getLast? = some last) (hparse : Pattern.parse last = .ok p) : patterns.getLast? = some p := by
  obtain ⟨others, rfl⟩ := List.getLast?_eq_some_iff.mp hlast
  rw [List.mapM_append, Except.bind_eq_ok_iff] at h
  obtain ⟨before, -, h⟩ := h
  obtain ⟨after, hafter, h⟩ := Except.bind_eq_ok_iff.mp h
  rw [List.mapM_cons, hparse] at hafter
  cases hafter
  cases h
  simp

theorem getLast?_patternPieces_join (directory : String) {name : String} (h : Path.IsName name) :
    (patternPieces (Path.join directory name)).getLast? = some name := by
  obtain ⟨others, hpieces⟩ := Path.exists_pieces_join directory
  simp [patternPieces, hpieces name h.noSlash, h.nonempty]

/-- If something is found, it ends in names that a pattern matches. -/
def FoundEnds (p : Pattern) (found : Except Pattern.Error (List Hit)) : Prop :=
  ∀ hits, found = .ok hits → ∀ path, .ok path ∈ hits → p.MatchesEnd path

/-- All that is found ends in a name that the last piece of the pattern matches. -/
theorem find_matchesEnd {text last : String} {p : Pattern}
    (hlast : (patternPieces text).getLast? = some last) (hparse : Pattern.parse last = .ok p)
    (hp : p.isRecursive = false) {world : σ} {hits : List Hit}
    (h : ((disk.find text).run world).1 = .ok hits) :
    ∀ path, .ok path ∈ hits → p.MatchesEnd path := by
  suffices hfind : Gives (FoundEnds p) (disk.find text) from hfind world hits h
  unfold find
  split
  · exact .pure fun _ h => nomatch h
  · exact .pure fun _ h => nomatch h
  · rename_i patterns _ hpatterns
    have hlast' : patterns.getLast? = some p := getLast?_of_mapM hpatterns hlast hparse
    have hfound (directory : String) {rest : List Pattern}
        (hrest : rest = [] ∨ rest.getLast? = some p) : Gives (FoundEnds p) (do
        return .ok (← disk.findWithin (text.toList.getLast? == some '/')
          (maxPathLength + patterns.length) directory rest)) := by
      refine .bind (P := fun hits => ∀ path, .ok path ∈ hits → p.MatchesEnd path) ?_
        fun found hfound => .pure (by simpa [FoundEnds] using hfound)
      rcases hrest with rfl | hrest
      · rw [findWithin_nil]
        exact .pure (by simp)
      · exact disk.findsOnly_findWithin _ hp _ _ hrest
    refine .ite (fun _ => hfound "/" ?_) fun _ => hfound "." (.inr hlast')
    cases patterns with
    | nil => exact .inl rfl
    | cons q patterns =>
      cases patterns with
      | nil => exact .inl rfl
      | cons r patterns => exact .inr (by simpa using hlast')

end Disk

end TypeSchema
