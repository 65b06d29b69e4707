import TypeSchema.Fixtures
import TypeSchema.Proofs.Descending
import TypeSchema.Proofs.Replacing
import TypeSchema.Proofs.Routes

/-!
The schema that a fixture is compared with. Its path has the ending of a descriptor replaced
wherever it occurs, so it is the path beside the descriptor exactly if the ending is nowhere else,
in the directory or in the stem of the name. Among such fixtures no two share a schema.
-/
namespace TypeSchema

namespace Fixtures

/-! ### The expected path -/

theorem toList_expectedPath (path : String) : (expectedPath path).toList =
    Path.replaceChars descriptorEnd.toList schemaEnd.toList 0 path.toList := by
  simp [expectedPath, Path.replaceAll]

/-- The ending is replaced, and so is all that looks like it before. -/
theorem expectedPath_append (beginning : String) :
    expectedPath (beginning ++ descriptorEnd) = expectedPath beginning ++ schemaEnd := by
  have hne : descriptorEnd.toList ≠ [] := by decide
  -- the ending does not overlap with itself
  have hout : Path.StaysOut descriptorEnd.toList descriptorEnd.toList := by decide
  rw [← String.toList_inj, toList_expectedPath, String.toList_append, String.toList_append,
    hout.replaceChars_append hne, Path.replaceChars_self hne, toList_expectedPath]

theorem expectedPath_eq_self_iff {path : String} :
    expectedPath path = path ↔ ¬ descriptorEnd.toList <:+: path.toList := by
  rw [← Path.replaceChars_eq_self_iff (by decide) (by decide : schemaEnd.toList.length < _),
    ← String.toList_inj, toList_expectedPath]

/-! ### The comparison -/

/-- What a fixture comes to, given what is read at the path of its descriptor and at the path of its
schema. -/
def comparison (descriptor : Except FileError String) (path : String)
    (schema : Except FileError String) : Except Fault Unit := do
  let text ← descriptor.mapError .unreadable
  let made ← actual text
  let expected ← schema.mapError (.missing path)
  compare made expected

theorem comparison_of_made {text : String} {made : Json} (hmade : actual text = .ok made)
    (path : String) (schema : Except FileError String) :
    comparison (.ok text) path schema = schema.mapError (.missing path) >>= compare made := by
  simp only [comparison, Except.mapError, hmade, bind, Except.bind]

theorem compare_ne_missing (made : Json) (text path : String) (e : FileError) :
    compare made text ≠ .error (.missing path e) := by
  unfold compare
  split
  · simp
  · split <;> simp [pure, Except.pure]

theorem exists_actual_eq_ok : ∃ text made, actual text = .ok made := by
  let text := "\x7b\"kind\":\"object\"\x7d"
  have hread : Descriptor.ofText text = .ok (.object ⟨none, []⟩) := by
    refine Descriptor.ofText_eq_ok_iff.mpr
      ⟨.object [("kind", .string "object")], ?_, by decide, rfl⟩
    simp only [text, String.reduceToList]
    rfl
  refine ⟨text, Schema.toJson (.object [] []), ?_⟩
  rw [actual, hread]
  rfl

end Fixtures

def Disk.single (path text : String) : Disk (StateM Unit) where
  isDirectory? _ := pure none
  names _ := pure (.ok [])
  readText other := pure (if other = path then .ok text else .error .notFound)
  writeText _ _ := pure (.error .notFound)
  makeDirectory _ := pure (.error .notFound)

theorem Disk.onlyLooks_single (path text : String) : (Disk.single path text).OnlyLooks where
  isDirectory? _ _ := rfl
  names _ _ := rfl
  readText _ _ := rfl

theorem Disk.textAt_single (path text other : String) :
    (Disk.single path text).textAt () other =
      if other = path then .ok text else .error .notFound :=
  rfl

namespace Fixtures

section
variable {σ : Type} {disk : Disk (StateM σ)} (h : disk.OnlyLooks)
include h

theorem looks_check (path : String) : Looks (check disk path) := by
  unfold check
  refine (h.readText path).bind fun _ => ?_
  split
  · exact .pure _
  · split
    · exact .pure _
    · refine (h.readText _).bind fun _ => ?_
      split <;> exact .pure _

theorem run_check (path : String) (world : σ) : (check disk path).run world =
    (comparison (disk.textAt world path) (expectedPath path)
      (disk.textAt world (expectedPath path)), world) := by
  refine Prod.ext ?_ (looks_check h path world)
  unfold check comparison
  rw [(h.readText path).run_bind, ← Disk.textAt]
  cases disk.textAt world path with
  | error e => rfl
  | ok text =>
    cases hmade : actual text with
    | error fault =>
      simp only [Except.mapError, hmade, bind, Except.bind]
      rfl
    | ok made =>
      rw [← comparison, comparison_of_made hmade]
      simp only [hmade]
      rw [(h.readText _).run_bind, ← Disk.textAt]
      cases disk.textAt world (expectedPath path) <;> rfl

end

end Fixtures

/-! ### Fixtures and their paths -/

/-- A fixture: a directory, and what the names of its two files there begin with. -/
structure Fixture where
  directory : String
  stem : String
  noSlash : '/' ∉ stem.toList

namespace Fixture

open Fixtures

variable (f g : Fixture)

def descriptorName : String := f.stem ++ descriptorEnd

def schemaName : String := f.stem ++ schemaEnd

def descriptor : String := Path.join f.directory f.descriptorName

def schema : String := Path.join f.directory f.schemaName

def beginning : String := Path.join f.directory f.stem

/-- Nothing before the ending looks like it. -/
def IsOrdinary : Prop :=
  ¬ descriptorEnd.toList <:+: f.directory.toList ∧ ¬ descriptorEnd.toList <:+: f.stem.toList

theorem isName_append {stem ending : String} (hstem : '/' ∉ stem.toList)
    (hending : '/' ∉ ending.toList) (hlength : 2 < ending.length) :
    Path.IsName (stem ++ ending) := by
  have hne (name : String) (hname : name.length ≤ 2) : stem ++ ending ≠ name := by
    rintro rfl
    rw [String.length_append] at hname
    omega
  exact ⟨by simp [hstem, hending], hne _ (by decide), hne _ (by decide), hne _ (by decide)⟩

theorem isName_descriptorName : Path.IsName f.descriptorName :=
  isName_append f.noSlash (by decide) (by decide)

theorem isName_schemaName : Path.IsName f.schemaName :=
  isName_append f.noSlash (by decide) (by decide)

theorem descriptor_eq : f.descriptor = f.beginning ++ descriptorEnd := by
  rw [descriptor, beginning, Path.join_eq _ f.isName_descriptorName.noSlash,
    Path.join_eq _ f.noSlash, descriptorName, String.append_assoc]

theorem schema_eq : f.schema = f.beginning ++ schemaEnd := by
  rw [schema, beginning, Path.join_eq _ f.isName_schemaName.noSlash, Path.join_eq _ f.noSlash,
    schemaName, String.append_assoc]

theorem schema_eq_schema_iff : f.schema = g.schema ↔ f.descriptor = g.descriptor := by
  simp only [schema_eq, descriptor_eq, String.append_left_inj]

theorem expectedPath_descriptor :
    expectedPath f.descriptor = expectedPath f.beginning ++ schemaEnd := by
  rw [descriptor_eq, expectedPath_append]

theorem isOrdinary_iff : f.IsOrdinary ↔ ¬ descriptorEnd.toList <:+: f.beginning.toList := by
  have hne : descriptorEnd.toList ≠ [] := by decide
  have hsplit (above : String) : descriptorEnd.toList <:+: (above ++ "/" ++ f.stem).toList ↔
      descriptorEnd.toList <:+: above.toList ∨ descriptorEnd.toList <:+: f.stem.toList := by
    simpa using Path.infix_append_cons_iff hne (by decide : '/' ∉ _) above.toList f.stem.toList
  rw [IsOrdinary, ← not_or, beginning, Path.join_eq _ f.noSlash]
  rcases Path.before_cases f.directory with ⟨hdirectory, hbefore⟩ | ⟨above, hdirectory, hbefore⟩ |
    hbefore
  · rw [hbefore, hdirectory, String.empty_append]
    simp [hne]
  · have habove : descriptorEnd.toList <:+: (above ++ "/").toList ↔
        descriptorEnd.toList <:+: above.toList := by
      simpa [hne] using Path.infix_append_cons_iff hne (by decide : '/' ∉ _) above.toList []
    rw [hbefore, hsplit, hdirectory, habove]
  · rw [hbefore, hsplit]

instance : Decidable f.IsOrdinary :=
  decidable_of_iff (expectedPath f.beginning = f.beginning)
    (expectedPath_eq_self_iff.trans f.isOrdinary_iff.symm)

theorem expectedPath_descriptor_eq_iff : expectedPath f.descriptor = f.schema ↔ f.IsOrdinary := by
  rw [expectedPath_descriptor, schema_eq, String.append_left_inj, expectedPath_eq_self_iff,
    isOrdinary_iff]

theorem expectedPath_descriptor_ne : expectedPath f.descriptor ≠ f.descriptor := by
  rw [Ne, expectedPath_eq_self_iff, not_not, descriptor_eq, String.toList_append]
  exact (List.suffix_append _ _).isInfix

/-- The descriptors of fixtures are at all paths with the ending. -/
theorem exists_descriptor_eq {path : String} (h : descriptorEnd.toList <:+ path.toList) :
    ∃ f : Fixture, f.descriptor = path := by
  obtain ⟨beginning, hbeginning⟩ := h
  obtain ⟨directory, stem, hstem, heq⟩ := Path.exists_eq_before_append (String.ofList beginning)
  refine ⟨⟨directory, stem, hstem⟩, ?_⟩
  rw [descriptor_eq, Fixture.beginning, Path.join_eq _ hstem, ← heq, ← String.toList_inj]
  simpa using hbeginning

/-- On a tree of files the two lie in one directory. -/
theorem exists_of_locate {tree : Tree} {site : Tree.Site}
    (h : tree.locate f.descriptor = .ok site) :
    ∃ place, site = place ++ [f.descriptorName] ∧
      tree.locate f.schema = .ok (place ++ [f.schemaName]) := by
  obtain ⟨place, hsite, hothers⟩ := Tree.exists_of_locate_join f.isName_descriptorName h
  refine ⟨place, hsite, hothers _ f.isName_schemaName ?_⟩
  rw [schemaName, descriptorName, String.utf8ByteSize_append, String.utf8ByteSize_append]
  exact Nat.add_le_add_left (by decide) _

/-! ### What a fixture is compared with -/

/-- Whatever is on the disk, the fixture comes to what its descriptor and the text at a path come
to, and the disk stays as it is. -/
def IsComparedWith (path : String) : Prop :=
  ∀ (σ : Type) (disk : Disk (StateM σ)) (world : σ), disk.OnlyLooks →
    (check disk f.descriptor).run world =
      (comparison (disk.textAt world f.descriptor) path (disk.textAt world path), world)

theorem isComparedWith_iff {path : String} :
    f.IsComparedWith path ↔ path = expectedPath f.descriptor := by
  constructor
  · intro hpath
    obtain ⟨text, made, hmade⟩ := exists_actual_eq_ok
    -- on a disk with nothing but the descriptor, the schema is missing, and the fault tells where
    have hmissing := hpath _ _ () (Disk.onlyLooks_single f.descriptor text)
    rw [run_check (Disk.onlyLooks_single _ _), Prod.mk.injEq, Disk.textAt_single, if_pos rfl,
      comparison_of_made hmade, comparison_of_made hmade, Disk.textAt_single, Disk.textAt_single,
      if_neg f.expectedPath_descriptor_ne] at hmissing
    by_cases hself : path = f.descriptor
    · rw [if_pos hself] at hmissing
      exact (compare_ne_missing _ _ _ _ hmissing.1.symm).elim
    · rw [if_neg hself] at hmissing
      simpa [Except.mapError, bind, Except.bind, eq_comm] using hmissing
  · rintro rfl σ disk world h
    exact run_check h _ _

theorem isComparedWith_schema_iff : f.IsComparedWith f.schema ↔ f.IsOrdinary := by
  rw [isComparedWith_iff, eq_comm, expectedPath_descriptor_eq_iff]

def verdict {σ : Type} (disk : Disk (StateM σ)) (world : σ) : Verdict :=
  match ((check disk f.descriptor).run world).1 with
  | .ok () => ⟨f.descriptorName, none⟩
  | .error fault => ⟨f.descriptorName, some fault⟩

end Fixture

namespace Fixtures

section
variable {σ : Type} {disk : Disk (StateM σ)} (h : disk.OnlyLooks)

theorem exists_fixtures_of_find {world : σ} {directory : String} {hits : List Disk.Hit}
    (hfind : ((disk.find (Path.join directory ("*" ++ descriptorEnd))).run world).1 = .ok hits) :
    ∃ fixtures : List Fixture, fixtures.map (·.descriptor) = Disk.paths hits := by
  have hname : Path.IsName ("*" ++ descriptorEnd) :=
    Fixture.isName_append (by decide) (by decide) (by decide)
  have hmatch := disk.find_matchesEnd (Disk.getLast?_patternPieces_join directory hname)
    (Pattern.parse_star (List.all_eq_true.mp (by decide))) (Pattern.isRecursive_endingIn _) hfind
  have hfixture (path : String) (hpath : path ∈ Disk.paths hits) :
      ∃ f : Fixture, f.descriptor = path := by
    obtain ⟨name, hname, hsuffix⟩ := hmatch path (Disk.mem_paths_iff.mp hpath)
    exact Fixture.exists_descriptor_eq
      ((Pattern.isMatch_endingIn_iff.mp hname).trans hsuffix)
  generalize Disk.paths hits = paths at hfixture ⊢
  induction paths with
  | nil => exact ⟨[], rfl⟩
  | cons path paths ih =>
    obtain ⟨f, hf⟩ := hfixture path List.mem_cons_self
    obtain ⟨fixtures, hfixtures⟩ := ih fun path hpath =>
      hfixture path (List.mem_cons_of_mem _ hpath)
    exact ⟨f :: fixtures, by rw [List.map_cons, hf, hfixtures]⟩

include h

theorem looks_judge (path : String) : Looks (judge disk path) := by
  unfold judge
  refine (looks_check h path).bind fun _ => ?_
  split <;> exact .pure _

theorem run_judge (f : Fixture) (world : σ) :
    ((judge disk f.descriptor).run world).1 = f.verdict disk world := by
  unfold judge
  rw [(looks_check h _).run_bind, Fixture.descriptor, Path.fileName?_join _ f.isName_descriptorName,
    ← Fixture.descriptor, Fixture.verdict]
  cases ((check disk f.descriptor).run world).1 <;> rfl

/-- A run looks at the descriptors of fixtures only, and judges each of them that it finds. -/
theorem run_of_find {world : σ} {directory : String} {hits : List Disk.Hit}
    (hfind : ((disk.find (Path.join directory ("*" ++ descriptorEnd))).run world).1 = .ok hits) :
    ∃ fixtures : List Fixture, fixtures.map (·.descriptor) = Disk.paths hits ∧
      (run disk directory).run world =
        (.verdicts (fixtures.map fun f => f.verdict disk world), world) := by
  obtain ⟨fixtures, hfixtures⟩ := exists_fixtures_of_find hfind
  refine ⟨fixtures, hfixtures, ?_⟩
  have hjudge := Looks.run_mapM (fixtures.map (·.descriptor)) (looks_judge h) world
  have hlooks : Looks ((fixtures.map (·.descriptor)).mapM (judge disk)) := .mapM _ (looks_judge h)
  rw [List.map_map] at hjudge
  unfold run
  rw [(h.find _).run_bind, hfind]
  dsimp only
  rw [← hfixtures, hlooks.run_bind, hjudge]
  simp only [Function.comp_def, run_judge h]
  rfl

/-- A run over the directory of a fixture, if no name in it is a pattern, judges the fixture. -/
theorem run_of_leads {world : σ} {absolute : Bool} {pieces : List String} {f : Fixture}
    (hleads : disk.Leads world absolute pieces f.directory)
    (hdirectory : disk.directoryAt? world (Path.orHere f.directory) = some true)
    {names : List String} (hnames : disk.namesAt world (Path.orHere f.directory) = .ok names)
    (hname : f.descriptorName ∈ names) :
    ∃ fixtures : List Fixture,
      (run disk f.directory).run world =
        (.verdicts (fixtures.map fun g => g.verdict disk world), world) ∧
      f.descriptor ∈ fixtures.map (·.descriptor) := by
  have hfind := Disk.find_of_leads h hleads hdirectory hnames
    (by decide : '/' ∉ descriptorEnd.toList) (List.all_eq_true.mp (by decide))
  obtain ⟨fixtures, hpaths, hrun⟩ := run_of_find h hfind
  refine ⟨fixtures, hrun, ?_⟩
  rw [hpaths, Disk.mem_paths_iff]
  refine List.mem_map.mpr ⟨f.descriptorName, List.mem_filter.mpr ⟨?_, ?_⟩, rfl⟩
  · exact List.mem_mergeSort.mpr hname
  · rw [List.isSuffixOf_iff_suffix, Fixture.descriptorName, String.toList_append]
    exact List.suffix_append _ _

end

/-- Which schema a fixture is compared with. Its path has the ending replaced wherever it occurs, so
it is the schema beside the descriptor, in the same directory and with the same stem, exactly if
neither the directory nor the stem has the ending in it. Such a fixture is never compared with the
schema of another one, and no two of them are compared with the same file. A run judges fixtures
only, and a run over a directory judges every fixture in it. -/
theorem compared_with_sibling_iff (f : Fixture) :
    f.IsComparedWith (expectedPath f.beginning ++ schemaEnd) ∧
    (f.IsComparedWith f.schema ↔ f.IsOrdinary) ∧
    (∀ (tree : Tree) site, tree.locate f.descriptor = .ok site →
      ∃ place, site = place ++ [f.stem ++ descriptorEnd] ∧
        tree.locate f.schema = .ok (place ++ [f.stem ++ schemaEnd])) ∧
    (f.IsOrdinary → ∀ g : Fixture, f.descriptor ≠ g.descriptor →
      ¬ f.IsComparedWith g.schema ∧
      (g.IsOrdinary → ∀ path, f.IsComparedWith path → ¬ g.IsComparedWith path)) ∧
    ∀ (σ : Type) (disk : Disk (StateM σ)), disk.OnlyLooks → ∀ world,
      (∀ directory hits,
        ((disk.find (Path.join directory ("*" ++ descriptorEnd))).run world).1 = .ok hits →
          ∃ fixtures : List Fixture, fixtures.map (·.descriptor) = Disk.paths hits ∧
            (run disk directory).run world =
              (.verdicts (fixtures.map fun g => g.verdict disk world), world)) ∧
      ∀ absolute pieces names, disk.Leads world absolute pieces f.directory →
        disk.directoryAt? world (Path.orHere f.directory) = some true →
        disk.namesAt world (Path.orHere f.directory) = .ok names → f.descriptorName ∈ names →
          ∃ fixtures : List Fixture,
            (run disk f.directory).run world =
              (.verdicts (fixtures.map fun g => g.verdict disk world), world) ∧
            f.descriptor ∈ fixtures.map (·.descriptor) := by
  refine ⟨?_, f.isComparedWith_schema_iff, fun tree site => f.exists_of_locate, fun hf g hne => ?_,
    fun σ disk h world => ⟨fun directory hits => run_of_find h, fun absolute pieces names => ?_⟩⟩
  · exact f.isComparedWith_iff.mpr f.expectedPath_descriptor.symm
  · have hschema : expectedPath f.descriptor ≠ g.schema := by
      rw [f.expectedPath_descriptor_eq_iff.mpr hf]
      exact mt (f.schema_eq_schema_iff g).mp hne
    refine ⟨fun h => hschema (f.isComparedWith_iff.mp h).symm, fun hg path hfpath hgpath => ?_⟩
    rw [← g.expectedPath_descriptor_eq_iff.mpr hg] at hschema
    exact hschema ((f.isComparedWith_iff.mp hfpath).symm.trans (g.isComparedWith_iff.mp hgpath))
  · exact fun hleads hdirectory hnames => run_of_leads h hleads hdirectory hnames

/-- A name and a directory that all but have the ending in them. -/
theorem compared_with_sibling_nearMisses :
    let f : Fixture := ⟨"fx.descriptor", "a.descriptor.jso", by decide⟩
    let g : Fixture := ⟨"fx.descriptor", "a.schema.json", by decide⟩
    let tree : Tree := ⟨[], [(["fx.descriptor"], .directory),
      (["fx.descriptor", "a.descriptor.jso.descriptor.json"], .file (some "\x7b\x7d"))]⟩
    f.IsComparedWith f.schema ∧ ¬ f.IsComparedWith g.schema ∧ ¬ g.IsComparedWith f.schema ∧
    tree.locate f.schema = .ok ["fx.descriptor", "a.descriptor.jso.schema.json"] ∧
    (∃ fixtures : List Fixture, fixtures.map (·.descriptor) = [f.descriptor] ∧
      (run Tree.disk "fx.descriptor").run tree =
        (.verdicts (fixtures.map fun g => g.verdict Tree.disk tree), tree)) ∧
    ∃ fixtures : List Fixture,
      (run Tree.disk f.directory).run tree =
        (.verdicts (fixtures.map fun g => g.verdict Tree.disk tree), tree) ∧
      f.descriptor ∈ fixtures.map (·.descriptor) := by
  intro f g tree
  have hplain : Path.IsPlain "fx.descriptor" :=
    ⟨by decide, by decide, by decide, List.all_eq_true.mp (by decide)⟩
  have hdirectory : Tree.disk.directoryAt? tree "fx.descriptor" = some true := rfl
  have hgoes : Tree.disk.GoesOn tree "" "fx.descriptor" := by
    rw [Disk.GoesOn, if_neg (by decide)]
    exact fun hnone => by cases hdirectory.symm.trans hnone
  have hleads : Tree.disk.Leads tree false ["fx.descriptor"] "fx.descriptor" :=
    .step .here hplain hgoes
  have hhere : Path.orHere "fx.descriptor" = "fx.descriptor" := by decide
  have hnames :
      Tree.disk.namesAt tree "fx.descriptor" = .ok ["a.descriptor.jso.descriptor.json"] := rfl
  have hname : f.descriptorName = "a.descriptor.jso.descriptor.json" := by decide
  have hfind : ((Tree.disk.find (Path.join "fx.descriptor" ("*" ++ descriptorEnd))).run tree).1 =
      .ok [.ok f.descriptor] := by
    rw [Disk.find_of_leads Tree.onlyLooks_disk hleads (by rw [hhere, hdirectory])
      (by rw [hhere, hnames]) (by decide) (List.all_eq_true.mp (by decide)),
      List.mergeSort_singleton, ← hname,
      List.filter_cons_of_pos (by decide), List.filter_nil]
    rfl
  have hpath : f.descriptor = "fx.descriptor/a.descriptor.jso.descriptor.json" := by decide
  have hsite : tree.locate "fx.descriptor/a.descriptor.jso.descriptor.json" =
      .ok ["fx.descriptor", "a.descriptor.jso.descriptor.json"] := rfl
  have hf : f.IsOrdinary := by decide
  have hg : g.IsOrdinary := by decide
  obtain ⟨-, hsibling, hplace, hother, hrun⟩ := compared_with_sibling_iff f
  have hcompared := hsibling.mpr hf
  obtain ⟨hforeign, hshared⟩ := hother hf g (by decide)
  obtain ⟨place, hbeside, hschema⟩ := hplace tree _ (hpath ▸ hsite)
  have hends : ["fx.descriptor"] ++ [_] = place ++ [_] := hbeside
  rw [← List.append_inj_left' hends rfl, show f.stem ++ schemaEnd = "a.descriptor.jso.schema.json"
    by decide] at hschema
  obtain ⟨hjudged, hfound⟩ := hrun _ Tree.disk Tree.onlyLooks_disk tree
  refine ⟨hcompared, hforeign, hshared hg _ hcompared, hschema, hjudged _ _ hfind,
    hfound false _ [f.descriptorName] hleads ?_ ?_ (List.mem_singleton_self _)⟩
  · rw [hhere, hdirectory]
  · rw [hhere, hnames, hname]

/-- The ending inside the stem or the directory: the schema beside is not looked at, and another
fixture's may be. -/
theorem not_compared_with_sibling :
    let f : Fixture := ⟨"fx", "a.descriptor.json", by decide⟩
    let g : Fixture := ⟨"fx", "a.schema.json", by decide⟩
    let inside : Fixture := ⟨"fx.descriptor.json", "a", by decide⟩
    f.descriptor ≠ g.descriptor ∧ ¬ f.IsComparedWith f.schema ∧ f.IsComparedWith g.schema ∧
      g.IsComparedWith g.schema ∧ ¬ inside.IsComparedWith inside.schema := by
  intro f g inside
  refine ⟨by decide, f.isComparedWith_schema_iff.not.mpr (by decide), ?_,
    g.isComparedWith_schema_iff.mpr (by decide),
    inside.isComparedWith_schema_iff.not.mpr (by decide)⟩
  exact f.isComparedWith_iff.mpr (by decide)

end Fixtures

end TypeSchema
