import SvgdCollect.Lib.FileTree
import SvgdCollect.Layout

/-!
# The directories of the RRD files

`writer_write` makes the directory of a file in front of its creation.  `mkdirp` copies the
path, cuts it at one slash after the other, and calls `mkdir` for what is then in front;
errors are logged and the loop goes on.  Which directories the system lets the process make
is a parameter.
-/

namespace SvgdCollect

open Lib

/-! ## Paths -/

/-- A component between two slashes. -/
def pathStep (c : Bytes) : PathStep Bytes :=
  if c = [] then .empty
  else if c = [byte '.'] then .here
  else if c = [byte '.', byte '.'] then .up
  else .down c

def pathSteps (path : Bytes) : List (PathStep Bytes) := (path.splitOn slash).map pathStep

/-- Where the resolution of a path starts. -/
def startOf (cwd : Location Bytes) (path : Bytes) : Location Bytes :=
  if path.head? = some slash then [] else cwd

/-- The location of the file that a path buffer names; its last byte is the NUL.  There are
no links in this picture of a file system. -/
def fileOf (cwd : Location Bytes) (out : Bytes) : Location Bytes :=
  FileTree.target (startOf cwd out) (pathSteps out.dropLast)

section Code

variable (allow : Location Bytes → Bool) (cwd : Location Bytes)

/-- The system call `mkdir`. -/
def sysMkdir (t : FileTree Bytes) (path : Bytes) : FileTree Bytes :=
  t.mkdir allow (startOf cwd path) (pathSteps path)

/-- One round of the loop: `tmp` ends at `i` while `mkdir` is called. -/
def mkdirpRound (dir : Bytes) (t : FileTree Bytes) (i : Nat) : FileTree Bytes :=
  if dir[i]? = some slash then sysMkdir allow cwd t (dir.take i) else t

/-- `mkdirp`. -/
def mkdirp (t : FileTree Bytes) (dir : Bytes) : FileTree Bytes :=
  if dir.length = 0 ∨ dir.length ≥ 4096 then t
  else
    sysMkdir allow cwd ((List.range' 1 (dir.length - 1)).foldl (mkdirpRound allow cwd dir) t) dir

/-- Step 3 of `writer_write` for a path: everything up to the last slash is a directory. -/
def makeDirectory (t : FileTree Bytes) (path : Bytes) : FileTree Bytes :=
  match strrchr path slash with
  | none => t
  | some rest =>
      let dlen := path.length - rest.length
      if dlen = 0 then t
      else if dlen < 4096 then mkdirp allow cwd t (path.take dlen) else t

/-- The directories behind a call of `writer_write`. -/
def writerDirectories {D : Type} (w : Writer) (t : FileTree Bytes) (m : Metric D) :
    FileTree Bytes :=
  match writerPath w m with
  | none => t
  | some out => makeDirectory allow cwd t (cstr out)

end Code

/-! ## The loop over the slashes -/

theorem length_splitOn (s : Bytes) : (s.splitOn slash).length = s.count slash + 1 := by
  induction s with
  | nil => rfl
  | cons b s ih =>
      rw [List.splitOn_cons_eq_if_modifyHead, List.count_cons]
      by_cases hb : (b == slash) = true
      · rw [if_pos hb, if_pos hb, List.length_cons, ih]
      · rw [if_neg hb, if_neg hb, List.length_modifyHead, ih]

theorem length_pathSteps (s : Bytes) : (pathSteps s).length = s.count slash + 1 := by
  rw [pathSteps, List.length_map, length_splitOn]

theorem pathSteps_append (s t : Bytes) :
    pathSteps (s ++ slash :: t) = pathSteps s ++ pathSteps t := by
  rw [pathSteps, List.splitOn_append_cons_self, List.map_append]
  rfl

/-- The first prefixes of a list of steps, from `k` steps on. -/
theorem drop_inits {α : Type} (front back : List α) :
    (front ++ back).inits.drop front.length =
      front :: (front ++ back).inits.drop (front.length + 1) := by
  have hLength : front.length < (front ++ back).inits.length := by
    rw [List.length_inits, List.length_append]
    omega
  rw [List.drop_eq_getElem_cons hLength, List.getElem_inits, List.take_left]

section Loop

variable {allow : Location Bytes → Bool} {cwd : Location Bytes}

/-- With `done` in front of the index, the rest of the loop and the last call make the
prefixes that have at least the components of `done`. -/
theorem foldl_mkdirpRound (t : FileTree Bytes) {done s : Bytes} (hDone : done ≠ []) :
    sysMkdir allow cwd ((List.range' done.length s.length).foldl
        (mkdirpRound allow cwd (done ++ s)) t) (done ++ s) =
      ((pathSteps (done ++ s)).inits.drop (pathSteps done).length).foldl
        (fun t q => t.mkdir allow (startOf cwd (done ++ s)) q) t := by
  have hStart : ∀ s, startOf cwd (done ++ s) = startOf cwd done := by
    intro s
    obtain ⟨b, done, rfl⟩ := List.exists_cons_of_ne_nil hDone
    rfl
  induction s generalizing done t with
  | nil =>
      have hAll := drop_inits (pathSteps done) []
      have hNone : (pathSteps done).inits.drop ((pathSteps done).length + 1) = [] := by
        rw [List.drop_eq_nil_iff, List.length_inits]
      rw [List.append_nil, hNone] at hAll
      rw [List.append_nil, hAll]
      rfl
  | cons b s ih =>
      have hNext : done ++ b :: s = (done ++ [b]) ++ s := by simp
      have hLength : done.length + 1 = (done ++ [b]).length := by simp
      have hByte : (done ++ b :: s)[done.length]? = some b := by simp
      have hStart' : ∀ s', startOf cwd ((done ++ [b]) ++ s') = startOf cwd (done ++ [b]) := by
        intro s'
        rw [List.append_assoc, hStart, hStart]
      have hRest := fun t => @ih t (done ++ [b]) (by simp) hStart'
      rw [← hNext, ← hLength] at hRest
      rw [List.length_cons, List.range'_succ, List.foldl_cons, hRest]
      by_cases hb : b = slash
      · -- one component more
        subst hb
        have hSteps : (pathSteps (done ++ [slash])).length = (pathSteps done).length + 1 := by
          rw [length_pathSteps, length_pathSteps, List.count_append, List.count_singleton_self]
        rw [hSteps, pathSteps_append, drop_inits, List.foldl_cons]
        congr 1
        rw [mkdirpRound, if_pos hByte, List.take_left, sysMkdir, hStart]
      · have hNoSlash : [b].count slash = 0 := List.count_eq_zero_of_not_mem (by simpa using Ne.symm hb)
        have hSteps : (pathSteps (done ++ [b])).length = (pathSteps done).length := by
          rw [length_pathSteps, length_pathSteps, List.count_append, hNoSlash, add_zero]
        rw [hSteps, mkdirpRound, if_neg (by rw [hByte]; simpa using hb)]

/-- `mkdirp` creates what one walk along the path would create. -/
theorem mkdirp_eq_descend {t : FileTree Bytes} {dir : Bytes} (hNonempty : dir ≠ [])
    (hShort : dir.length < 4096) (hStart : t.node (startOf cwd dir) = some .dir) :
    mkdirp allow cwd t dir = t.descend allow (startOf cwd dir) (pathSteps dir) := by
  obtain ⟨b, s, rfl⟩ := List.exists_cons_of_ne_nil hNonempty
  have hLoop := @foldl_mkdirpRound allow cwd t [b] s (List.cons_ne_nil b [])
  rw [List.length_singleton, List.singleton_append] at hLoop
  rw [mkdirp, if_neg (by rw [List.length_cons] at hShort ⊢; omega), List.length_cons,
    Nat.add_sub_cancel, hLoop, ← FileTree.mkdirPrefixes_eq_descend hStart, FileTree.mkdirPrefixes]
  by_cases hb : b = slash
  · -- the loop leaves out the empty component in front of the first slash
    subst hb
    have hCount : (pathSteps [slash]).length = 2 := by decide
    have hSteps : pathSteps (slash :: s) = .empty :: pathSteps s := pathSteps_append [] s
    obtain ⟨c, cs, hCons⟩ : ∃ c cs, pathSteps s = c :: cs := by
      have hPos : 0 < (pathSteps s).length := by
        rw [length_pathSteps]
        omega
      exact List.exists_cons_of_length_pos hPos
    rw [hCount, hSteps, hCons, List.inits_cons, List.inits_cons]
    rfl
  · have hCount : (pathSteps [b]).length = 1 := by
      rw [length_pathSteps, List.count_eq_zero_of_not_mem (by simpa using Ne.symm hb)]
    obtain ⟨c, cs, hCons⟩ : ∃ c cs, pathSteps (b :: s) = c :: cs := by
      have hPos : 0 < (pathSteps (b :: s)).length := by
        rw [length_pathSteps]
        omega
      exact List.exists_cons_of_length_pos hPos
    rw [hCount, hCons, List.inits_cons]
    rfl

end Loop

/-! ## The files -/

section Files

variable {cwd : Location Bytes}

theorem startOf_append {s : Bytes} (h : s ≠ []) (t : Bytes) :
    startOf cwd (s ++ t) = startOf cwd s := by
  obtain ⟨b, s, rfl⟩ := List.exists_cons_of_ne_nil h
  rfl

theorem pathSteps_of_name {s : Bytes} (hSlash : slash ∉ s) (hNonempty : s ≠ [])
    (hDot : s.head? ≠ some (byte '.')) : pathSteps s = [.down s] := by
  have hOne : s.splitOn slash = [s] := List.splitOn_eq_singleton hSlash
  have hHere : s ≠ [byte '.'] := fun h => hDot (by rw [h]; rfl)
  have hUp : s ≠ [byte '.', byte '.'] := fun h => hDot (by rw [h]; rfl)
  rw [pathSteps, hOne, List.map_singleton, pathStep, if_neg hNonempty, if_neg hHere, if_neg hUp]

/-- A path of the layout leads to a directory and a file below the host's directory. -/
theorem fileOf_layout {base dir file : Bytes} (hBase : base ≠ []) (hDir : slash ∉ dir)
    (hFile : slash ∉ file) (hDirName : dir ≠ [] ∧ dir.head? ≠ some (byte '.'))
    (hFileName : file ≠ [] ∧ file.head? ≠ some (byte '.')) :
    fileOf cwd (base ++ slash :: (dir ++ slash :: file) ++ [0]) =
      FileTree.target (startOf cwd base) (pathSteps base) ++ [dir, file] := by
  rw [fileOf, List.dropLast_concat, List.append_assoc, startOf_append hBase, pathSteps_append,
    pathSteps_append, pathSteps_of_name hDir hDirName.1 hDirName.2,
    pathSteps_of_name hFile hFileName.1 hFileName.2, FileTree.target_append]
  simp [FileTree.target]

/-- Where the directory can be resolved, the file is looked for in it. -/
theorem fileOf_of_resolve {t : FileTree Bytes} {dir file : Bytes} {l : Location Bytes}
    (hDir : dir ≠ []) (hFile : slash ∉ file) (hName : file ≠ [] ∧ file.head? ≠ some (byte '.'))
    (h : t.resolve (startOf cwd dir) (pathSteps dir) = some l) :
    fileOf cwd (dir ++ slash :: file ++ [0]) = l ++ [file] := by
  rw [fileOf, List.dropLast_concat, List.append_assoc, startOf_append hDir, pathSteps_append,
    pathSteps_of_name hFile hName.1 hName.2, FileTree.target_append,
    ← FileTree.eq_target_of_resolve h]
  rfl

/-- The names of plugins and types do not start with a dot. -/
theorem kind_heads {plugin type : Bytes} {dsCount : Int}
    (h : (plugin, type, dsCount) ∈ metricKinds) :
    plugin.head? ≠ some (byte '.') ∧ type.head? ≠ some (byte '.') := by
  have hAll : ∀ k ∈ metricKinds, k.1.head? ≠ some (byte '.') ∧ k.2.1.head? ≠ some (byte '.') := by
    decide
  exact hAll _ h

theorem head?_dashed {name : Bytes} (h : name ≠ []) (inst : Option Bytes) :
    (dashed name inst).head? = name.head? := by
  obtain ⟨b, name, rfl⟩ := List.exists_cons_of_ne_nil h
  cases inst <;> rfl

section Metrics

variable {D : Type} [CDouble D] {w : Writer}

/-- The file of a metric without slashes in its instances. -/
theorem fileOf_writerPath {r : Reader} {m : Metric D} (hShape : Shape r m) (hSlash : SlashFree m)
    {out : Bytes} (hPath : writerPath w m = some out) :
    fileOf cwd out =
      FileTree.target (startOf cwd (w.datadir ++ slash :: w.host))
          (pathSteps (w.datadir ++ slash :: w.host)) ++
        [dashed m.plugin m.pluginInstance, dashed m.type m.typeInstance ++ ascii ".rrd"] := by
  obtain ⟨⟨hPlugin, hPluginSlash, -⟩, hType, hTypeSlash, -⟩ := kind_names (kind_of_shape hShape)
  obtain ⟨hPluginHead, hTypeHead⟩ := kind_heads (kind_of_shape hShape)
  have hRrd : slash ∉ ascii ".rrd" := by decide
  have hDir := (slash_notMem_dashed_iff hPluginSlash).mpr hSlash.1
  have hFile : slash ∉ dashed m.type m.typeInstance ++ ascii ".rrd" := by
    rw [List.mem_append, not_or]
    exact ⟨(slash_notMem_dashed_iff hTypeSlash).mpr hSlash.2, hRrd⟩
  have hDirName : dashed m.plugin m.pluginInstance ≠ [] ∧
      (dashed m.plugin m.pluginInstance).head? ≠ some (byte '.') := by
    rw [head?_dashed hPlugin]
    exact ⟨by cases m.pluginInstance <;> simp [dashed, hPlugin], hPluginHead⟩
  have hTypeName : dashed m.type m.typeInstance ≠ [] := by
    cases m.typeInstance <;> simp [dashed, hType]
  have hFileName : dashed m.type m.typeInstance ++ ascii ".rrd" ≠ [] ∧
      (dashed m.type m.typeInstance ++ ascii ".rrd").head? ≠ some (byte '.') := by
    rw [List.head?_append_of_ne_nil _ hTypeName, head?_dashed hType]
    exact ⟨List.append_ne_nil_of_left_ne_nil hTypeName _, hTypeHead⟩
  have hFull : fullPath w.datadir w.host m = (w.datadir ++ slash :: w.host) ++
      slash :: (dashed m.plugin m.pluginInstance ++
        slash :: (dashed m.type m.typeInstance ++ ascii ".rrd")) := by
    simp [fullPath]
  rw [writerPath_eq_some hPath, hFull]
  exact fileOf_layout (by simp) hDir hFile hDirName hFileName

/-- Without slashes in instances a file has one path. -/
theorem path_eq_of_fileOf_eq {r r' : Reader} {m m' : Metric D} (hShape : Shape r m)
    (hShape' : Shape r' m') (hSlash : SlashFree m) (hSlash' : SlashFree m') {out out' : Bytes}
    (hPath : writerPath w m = some out) (hPath' : writerPath w m' = some out')
    (hFile : fileOf cwd out = fileOf cwd out') : out = out' := by
  rw [fileOf_writerPath hShape hSlash hPath, fileOf_writerPath hShape' hSlash' hPath',
    List.append_cancel_left_eq] at hFile
  simp only [List.cons.injEq, and_true] at hFile
  rw [writerPath_eq_some hPath, writerPath_eq_some hPath', fullPath, fullPath, hFile.1, hFile.2]

end Metrics

end Files

/-! ## All calls of a run -/

theorem length_writerPath {D : Type} {w : Writer} {m : Metric D} {out : Bytes}
    (h : writerPath w m = some out) : out.length ≤ 4096 := by
  have hOut := writerPath_eq_some h
  unfold writerPath at h
  split at h
  · cases h
  · split at h
    · cases h
    · simp only at h
      split at h
      · cases h
      · rename_i hRc
        rw [not_not, metricToPath_rc (by norm_num)] at hRc
        by_cases hFits : (dashed m.type m.typeInstance ++ ascii ".rrd").length < 256 ∧
            (fullPath w.datadir w.host m).length < 4096 ∧ IntTexts w.datadir w.host m
        · rw [hOut, List.length_append, List.length_singleton]
          omega
        · rw [if_neg hFits] at hRc
          cases hRc

variable {allow : Location Bytes → Bool} {cwd : Location Bytes}

/-- A directory of a file, and the locations on the way to it. -/
def onTheWay (cwd : Location Bytes) (dir : Bytes) : List (Location Bytes) :=
  FileTree.visited (startOf cwd dir) (pathSteps dir)

theorem startOf_dir {t : FileTree Bytes} (hCwd : t.node cwd = some .dir) (path : Bytes) :
    t.node (startOf cwd path) = some .dir := by
  unfold startOf
  split
  · exact t.root
  · exact hCwd

/-- The directory of a path is what stands in front of its last slash. -/
theorem makeDirectory_eq {t : FileTree Bytes} {dir file : Bytes} (hFile : slash ∉ file)
    (hNonempty : dir ≠ []) (hShort : dir.length < 4096) (hCwd : t.node cwd = some .dir) :
    makeDirectory allow cwd t (dir ++ slash :: file) =
      t.descend allow (startOf cwd dir) (pathSteps dir) := by
  have hLength : (dir ++ slash :: file).length - (slash :: file).length = dir.length := by
    rw [List.length_append, Nat.add_sub_cancel]
  have hPos := List.length_pos_iff.mpr hNonempty
  rw [makeDirectory, strrchr_append_cons dir hFile]
  simp only [hLength, if_neg hPos.ne', if_pos hShort, List.take_left]
  exact mkdirp_eq_descend hNonempty hShort (startOf_dir hCwd dir)

/-- What a call may do to the tree: nothing, or walk to the directory of its file. -/
theorem writerDirectories_cases {D : Type} {w : Writer} {t : FileTree Bytes} {m : Metric D}
    (hCwd : t.node cwd = some .dir) :
    writerDirectories allow cwd w t m = t ∨
      ∃ out dir file, writerPath w m = some out ∧ cstr out = dir ++ slash :: file ∧
        slash ∉ file ∧ dir ≠ [] ∧
        writerDirectories allow cwd w t m =
          t.descend allow (startOf cwd dir) (pathSteps dir) := by
  cases hPath : writerPath w m with
  | none => exact Or.inl (by rw [writerDirectories, hPath])
  | some out =>
      rcases strrchr_cases (cstr out) slash with ⟨-, hNone⟩ | ⟨dir, file, hSplit, hFile, hSome⟩
      · refine Or.inl ?_
        rw [writerDirectories, hPath]
        simp only [makeDirectory, hNone]
      · by_cases hNonempty : dir = []
        · refine Or.inl ?_
          have hZero : (cstr out).length - (slash :: file).length = 0 := by
            rw [hSplit, hNonempty, List.nil_append, Nat.sub_self]
          rw [writerDirectories, hPath]
          simp only [makeDirectory, hSome, hZero, if_true]
        · refine Or.inr ⟨out, dir, file, rfl, hSplit, hFile, hNonempty, ?_⟩
          have hShort : dir.length < 4096 := by
            have hOut := length_writerPath hPath
            have hCut := (cstr_sublist out).length_le
            rw [hSplit, List.length_append, List.length_cons] at hCut
            omega
          rw [writerDirectories, hPath]
          simp only [hSplit]
          exact makeDirectory_eq hFile hNonempty hShort hCwd

theorem writerDirectories_keeps {D : Type} {w : Writer} {t : FileTree Bytes} {m : Metric D}
    (hCwd : t.node cwd = some .dir) {q : Location Bytes} {k : Node} (h : t.node q = some k) :
    (writerDirectories allow cwd w t m).node q = some k := by
  rcases @writerDirectories_cases allow cwd D w t m hCwd with
    hSame | ⟨_, _, _, _, _, _, _, hWalk⟩
  · rw [hSame]
    exact h
  · rw [hWalk]
    exact FileTree.descend_keeps h

/-- The tree after the calls of `writer_write` for some metrics. -/
def treeAfter {D : Type} (allow : Location Bytes → Bool) (cwd : Location Bytes) (w : Writer)
    (t : FileTree Bytes) (ms : List (Metric D)) : FileTree Bytes :=
  ms.foldl (writerDirectories allow cwd w) t

section Run

variable {D : Type} {w : Writer} {t : FileTree Bytes} {ms : List (Metric D)}

theorem treeAfter_keeps (hCwd : t.node cwd = some .dir) {q : Location Bytes} {k : Node}
    (h : t.node q = some k) : (treeAfter allow cwd w t ms).node q = some k := by
  induction ms generalizing t with
  | nil => exact h
  | cons m ms ih => exact ih (writerDirectories_keeps hCwd hCwd) (writerDirectories_keeps hCwd h)

theorem treeAfter_new (hCwd : t.node cwd = some .dir) {q : Location Bytes}
    (h : (treeAfter allow cwd w t ms).node q ≠ t.node q) :
    t.node q = none ∧ (treeAfter allow cwd w t ms).node q = some .dir ∧ allow q = true ∧
      ∃ m ∈ ms, ∃ out dir file, writerPath w m = some out ∧ cstr out = dir ++ slash :: file ∧
        slash ∉ file ∧ q ∈ onTheWay cwd dir := by
  induction ms generalizing t with
  | nil => exact absurd rfl h
  | cons m ms ih =>
      have hCwd' := @writerDirectories_keeps allow cwd D w t m hCwd _ _ hCwd
      have hTree : treeAfter allow cwd w t (m :: ms) =
        treeAfter allow cwd w (writerDirectories allow cwd w t m) ms := rfl
      rw [hTree] at h ⊢
      by_cases hFirst : (writerDirectories allow cwd w t m).node q = t.node q
      · rw [← hFirst] at h ⊢
        obtain ⟨hNone, hDir, hAllow, m', hm', hPath⟩ := ih hCwd' h
        exact ⟨hNone, hDir, hAllow, m', List.mem_cons_of_mem _ hm', hPath⟩
      · rcases @writerDirectories_cases allow cwd D w t m hCwd with
          hSame | ⟨out, dir, file, hPath, hSplit, hFile, -, hWalk⟩
        · exact absurd (by rw [hSame]) hFirst
        · rw [hWalk] at hFirst
          obtain ⟨hNone, hDir, hMem, hAllow⟩ := FileTree.descend_new hFirst
          rw [← hWalk] at hDir
          exact ⟨hNone, treeAfter_keeps hCwd' hDir, hAllow, m, List.mem_cons_self, out, dir, file,
            hPath, hSplit, hFile, hMem⟩

/-- Calls for other files do not put anything in the way. -/
theorem canBeDir_writerDirectories {m : Metric D} (hCwd : t.node cwd = some .dir)
    {q : Location Bytes} (h : FileTree.CanBeDir allow t q) :
    FileTree.CanBeDir allow (writerDirectories allow cwd w t m) q := by
  rcases h with hDir | ⟨hNone, hAllow⟩
  · exact Or.inl (writerDirectories_keeps hCwd hDir)
  · by_cases hSame : (writerDirectories allow cwd w t m).node q = t.node q
    · exact Or.inr ⟨hSame.trans hNone, hAllow⟩
    · exact Or.inl (@treeAfter_new allow cwd D w t [m] hCwd q hSame).2.1

theorem treeAfter_reaches (hCwd : t.node cwd = some .dir) {m : Metric D} (hm : m ∈ ms)
    {out dir file : Bytes} (hPath : writerPath w m = some out)
    (hSplit : cstr out = dir ++ slash :: file) (hFile : slash ∉ file) (hNonempty : dir ≠ [])
    (hFree : ∀ q ∈ onTheWay cwd dir, FileTree.CanBeDir allow t q) :
    ∀ q ∈ onTheWay cwd dir, (treeAfter allow cwd w t ms).node q = some .dir := by
  induction ms generalizing t with
  | nil => cases hm
  | cons m' ms ih =>
      have hCwd' := @writerDirectories_keeps allow cwd D w t m' hCwd _ _ hCwd
      rcases List.mem_cons.mp hm with rfl | hm
      · have hShort : dir.length < 4096 := by
          have hOut := length_writerPath hPath
          have hCut := (cstr_sublist out).length_le
          rw [hSplit, List.length_append, List.length_cons] at hCut
          omega
        have hWalk : writerDirectories allow cwd w t m =
            t.descend allow (startOf cwd dir) (pathSteps dir) := by
          rw [writerDirectories, hPath]
          simp only [hSplit]
          exact makeDirectory_eq hFile hNonempty hShort hCwd
        intro q hq
        refine treeAfter_keeps hCwd' ?_
        rw [hWalk]
        exact FileTree.descend_reaches (startOf_dir hCwd dir) hFree q hq
      · exact ih hCwd' hm fun q hq => canBeDir_writerDirectories hCwd (hFree q hq)

/-- **Directories are made as needed, and nothing else.**  After any calls of `writer_write`
everything that was there is still there; whatever is new is a directory that the process may
make, on the way to the file of one of the metrics; and the directory of a metric's file exists
exactly if no file was in the way and every missing directory on the way could be made.  The
tree does not hold the RRD files that the calls create behind `mkdirp`. -/
theorem directories_of_writes (hCwd : t.node cwd = some .dir) :
    (∀ q k, t.node q = some k → (treeAfter allow cwd w t ms).node q = some k) ∧
      (∀ q, (treeAfter allow cwd w t ms).node q ≠ t.node q →
        (treeAfter allow cwd w t ms).node q = some .dir ∧ allow q = true ∧
          ∃ m ∈ ms, ∃ out dir file, writerPath w m = some out ∧
            cstr out = dir ++ slash :: file ∧ slash ∉ file ∧ q ∈ onTheWay cwd dir) ∧
      ∀ m ∈ ms, ∀ out dir file, writerPath w m = some out → cstr out = dir ++ slash :: file →
        slash ∉ file → dir ≠ [] →
          (((treeAfter allow cwd w t ms).resolve (startOf cwd dir) (pathSteps dir)).isSome ↔
            ∀ q ∈ onTheWay cwd dir, FileTree.CanBeDir allow t q) := by
  refine ⟨fun q k h => treeAfter_keeps hCwd h, fun q h => (treeAfter_new hCwd h).2, ?_⟩
  intro m hm out dir file hPath hSplit hFile hNonempty
  rw [FileTree.resolve_isSome_iff]
  constructor
  · intro hDirs q hq
    by_cases hOld : t.node q = some .dir
    · exact Or.inl hOld
    · have hNew : (treeAfter allow cwd w t ms).node q ≠ t.node q := by
        rw [hDirs q hq]
        exact Ne.symm hOld
      obtain ⟨hNone, -, hAllow, -⟩ := treeAfter_new hCwd hNew
      exact Or.inr ⟨hNone, hAllow⟩
  · exact treeAfter_reaches hCwd hm hPath hSplit hFile hNonempty

end Run

/-- A file system with nothing but its root. -/
def bareTree : FileTree Bytes where
  node l := if l = [] then some .dir else none
  root := rfl
  above l name h := absurd (if_neg (by simp)) h

/-- `/rrd/web1/swap` is made for the first file in it. -/
theorem swap_directory_is_made :
    ((treeAfter (fun _ => true) [] (writerInit (ascii "/rrd") (ascii "web1") none) bareTree
      [(swapMetric "used" 3 : Metric ℚ)]).resolve [] (pathSteps (ascii "/rrd/web1/swap"))).isSome := by
  have hPath : writerPath (writerInit (ascii "/rrd") (ascii "web1") none)
      (swapMetric "used" 3 : Metric ℚ) = some (ascii "/rrd/web1/swap/swap-used.rrd" ++ [0]) := by
    decide
  have hSplit : cstr (ascii "/rrd/web1/swap/swap-used.rrd" ++ [0]) =
      ascii "/rrd/web1/swap" ++ slash :: ascii "swap-used.rrd" := by
    decide
  obtain ⟨-, -, hMade⟩ := @directories_of_writes (fun _ => true) [] ℚ
    (writerInit (ascii "/rrd") (ascii "web1") none) bareTree [swapMetric "used" 3] rfl
  refine (hMade _ List.mem_cons_self _ _ _ hPath hSplit (by decide) (by decide)).mpr ?_
  intro q _
  by_cases hRoot : q = []
  · exact Or.inl (if_pos hRoot)
  · exact Or.inr ⟨if_neg hRoot, rfl⟩

end SvgdCollect
