import WazabiAgent.Lib.WinNormal
import WazabiAgent.Plugin.PackageIsolation

/-!
# Where the files of a package are

The files of a package are to be in a directory of their own, `plugin_bin\<name>\<version>`. The
three names come from the server and are checked as text (`validate_segment`, `validate_filename`);
the file system normalises the path that is made of them. The checks refuse what leads up or aside.
They let pass what the normalisation drops: a single dot, periods and spaces at the end. And a file
name may name a stream.

## Main definitions

* `InOwnDir` — both paths of a download are those of files in the directory of the package
* `Plain` — the normalisation leaves the names alone, but for a period at the end of a directory

## Main results

* `inOwnDir_iff` — the files are where they should be if the names are plain
* `ownDirs_iff` — and two packages have two directories if more than case and a period tells them
  apart
-/

namespace WazabiAgent

namespace Plugin

open WinPath

variable {host : PluginHost} {info : PluginInfoForAgent} {filename dir : String}

/-! ### Names that are accepted -/

/-- What `validate_segment` lets pass. -/
structure IsSegment (s : String) : Prop where
  ne_nil : s.toList ≠ []
  no_sep : ∀ c ∈ s.toList, isSep c = false
  no_colon : ':' ∉ s.toList
  not_up : isUp s.toList = false

theorem isSegment_of_validateSegment {s label : String}
    (h : validateSegment host s label = .ok ()) : IsSegment s := by
  rw [validateSegment] at h
  split_ifs at h with hempty hchars
  simp only [Bool.or_eq_true, not_or, List.any_eq_true, not_exists, not_and] at hchars
  obtain ⟨hchars, hup⟩ := hchars
  constructor
  · rwa [Ne, String.toList_eq_nil_iff]
  · intro c hc
    have hfree := hchars c hc
    by_contra hsep
    simp only [isSep, Bool.not_eq_false, Bool.or_eq_true, decide_eq_true_eq] at hsep
    rcases hsep with rfl | rfl <;> exact hfree (by decide)
  · exact fun hc => hchars ':' hc (by decide)
  · by_contra hdots
    have heq : s.toList = ['.', '.'] := by simpa [isUp] using hdots
    rw [heq] at hup
    exact hup (by decide)

theorem isSegment_of_pluginDir (h : pluginDir host info = .ok dir) :
    IsSegment info.name ∧ IsSegment info.version := by
  obtain ⟨hname, hversion, -⟩ := checked_of_pluginDir h
  exact ⟨isSegment_of_validateSegment hname, isSegment_of_validateSegment hversion⟩

/-! ### Paths -/

/-- Whether or not the directory ends in a separator already. -/
theorem join_shape (base name : String) :
    ∃ cs c, isSep c = true ∧ (Config.join base name).toList = cs ++ c :: name.toList ∧
      dirsOf base.toList = dirsOf cs := by
  have hends (sep : String) (c : Char) (hsep : sep.toList = [c]) (hc : isSep c = true)
      (h : base.endsWith sep = true) :
      ∃ cs c, isSep c = true ∧ (base ++ name).toList = cs ++ c :: name.toList ∧
        dirsOf base.toList = dirsOf cs := by
    rw [← String.endsWith_toSlice, String.Slice.endsWith_string_iff, String.copy_toSlice, hsep] at h
    obtain ⟨cs, hcs⟩ := h
    refine ⟨cs, c, hc, ?_, ?_⟩
    · rw [String.toList_append, ← hcs, List.append_assoc, List.singleton_append]
    · have hnone : ∀ c ∈ ([] : List Char), isSep c = false := by simp
      rw [← hcs, dirsOf_append_sep hc cs hnone]
      rfl
  rw [Config.join]
  split_ifs with hsep
  · rcases (Bool.or_eq_true _ _).mp hsep with h | h
    · exact hends "\\" '\\' rfl rfl h
    · exact hends "/" '/' rfl rfl h
  · exact ⟨base.toList, '\\', rfl, by simp [String.toList_append], rfl⟩

theorem normalise_join {base name : String} (h : ∀ c ∈ name.toList, isSep c = false) :
    normalise (Config.join base name).toList = finish (dirsOf base.toList) name.toList := by
  obtain ⟨cs, c, hc, hpath, hdirs⟩ := join_shape base name
  rw [hpath, normalise_append_sep hc cs h, hdirs]

theorem dirsOf_join {base name : String} (h : ∀ c ∈ name.toList, isSep c = false) :
    dirsOf (Config.join base name).toList = enter (dirsOf base.toList) name.toList := by
  obtain ⟨cs, c, hc, hpath, hdirs⟩ := join_shape base name
  rw [hpath, dirsOf_append_sep hc cs h, hdirs]

/-- The directory `plugin_bin`. -/
def binDirs (host : PluginHost) : List (List Char) := dirsOf (pluginBinDir host).toList

/-- A file in the directory, and not a stream of one. -/
def IsFileIn (dirs : List (List Char)) (path : String) : Prop :=
  ∃ name, name ≠ [] ∧ normalise path.toList = { comps := dirs ++ [name] }

/-- The directory of the version is one below that of the name, which is one below `plugin_bin`, and
both paths of a download are those of files in it. -/
def InOwnDir (host : PluginHost) (info : PluginInfoForAgent) (filename : String) : Prop :=
  ∃ x y, normalise (versionDir host info).toList = { comps := binDirs host ++ [x, y] } ∧
    IsFileIn (binDirs host ++ [x, y]) (finalPath (versionDir host info) filename) ∧
    IsFileIn (binDirs host ++ [x, y]) (partialPath (versionDir host info) filename)

/-- Neither the name nor the version is a single dot, the version ends neither in a space nor in a
space before a period, and the file name has a name to it and no colon. -/
structure Plain (info : PluginInfoForAgent) (filename : String) : Prop where
  name : info.name ≠ "."
  version : info.version ≠ "." ∧ trimEnd info.version.toList = dropDot info.version.toList
  filename : ':' ∉ filename.toList ∧ trimEnd filename.toList ≠ []

/-! ### The condition -/

theorem not_component_iff {s : String} (h : s.toList ≠ []) :
    isComponent s.toList = false ↔ s = "." := by
  rw [isComponent, Bool.and_eq_false_iff]
  simp only [decide_eq_false_iff_not, not_not, h, false_or]
  exact (String.toList_inj : s.toList = ".".toList ↔ s = ".")

section

variable (hdir : pluginDir host info = .ok dir)

include hdir

theorem normalise_versionDir :
    normalise (versionDir host info).toList
      = finish (enter (binDirs host) info.name.toList) info.version.toList := by
  obtain ⟨hname, hversion⟩ := isSegment_of_pluginDir hdir
  rw [versionDir, normalise_join hversion.no_sep, dirsOf_join hname.no_sep, binDirs]

theorem dirsOf_versionDir :
    dirsOf (versionDir host info).toList
      = enter (enter (binDirs host) info.name.toList) info.version.toList := by
  obtain ⟨hname, hversion⟩ := isSegment_of_pluginDir hdir
  rw [versionDir, dirsOf_join hversion.no_sep, dirsOf_join hname.no_sep, binDirs]

end

theorem IsSegment.component {s : String} (h : IsSegment s) (hdot : s ≠ ".") :
    isComponent s.toList = true := by
  simpa using mt (not_component_iff h.ne_nil).mp hdot

theorem enter_of_segment {s : String} (h : IsSegment s) (dirs : List (List Char)) :
    enter dirs s.toList = if s = "." then dirs else dirs ++ [dropDot s.toList] := by
  rw [enter, h.not_up]
  by_cases hdot : s = "."
  · rw [if_pos hdot, (not_component_iff h.ne_nil).mpr hdot]
    rfl
  · rw [if_neg hdot, h.component hdot]
    rfl

theorem finish_of_segment {s : String} (h : IsSegment s) (dirs : List (List Char)) :
    finish dirs s.toList
      = { comps := if s = "." then dirs else below dirs (trimEnd s.toList) } := by
  rw [finish_of_no_colon h.no_colon, h.not_up]
  by_cases hdot : s = "."
  · rw [if_pos hdot, (not_component_iff h.ne_nil).mpr hdot]
    rfl
  · rw [if_neg hdot, h.component hdot]
    rfl

/-- The directory is two below `plugin_bin` where neither name is dropped. -/
theorem normalise_versionDir_iff (hdir : pluginDir host info = .ok dir) {x y : List Char} :
    normalise (versionDir host info).toList = { comps := binDirs host ++ [x, y] } ↔
      (info.name ≠ "." ∧ info.version ≠ "." ∧ trimEnd info.version.toList ≠ []) ∧
        x = dropDot info.name.toList ∧ y = trimEnd info.version.toList := by
  obtain ⟨hname, hversion⟩ := isSegment_of_pluginDir hdir
  rw [normalise_versionDir hdir, finish_of_segment hversion, enter_of_segment hname,
    Target.mk.injEq, below]
  by_cases hn : info.name = "."
  · rw [if_pos hn]
    refine iff_of_false (fun h => ?_) fun h => h.1.1 hn
    have hlen := congrArg List.length h.1
    split_ifs at hlen <;> simp at hlen
  · rw [if_neg hn]
    by_cases hv : info.version = "."
    · rw [if_pos hv]
      refine iff_of_false (fun h => ?_) fun h => h.1.2.1 hv
      simpa using congrArg List.length h.1
    · rw [if_neg hv]
      by_cases ht : trimEnd info.version.toList = []
      · rw [if_pos ht]
        refine iff_of_false (fun h => ?_) fun h => h.1.2.2 ht
        simpa using congrArg List.length h.1
      · rw [if_neg ht, List.append_assoc, List.append_cancel_left_eq]
        simp [hn, hv, ht, eq_comm]

/-- A path in the directory of the version, by its last segment. -/
theorem isFileIn_join_iff (hdir : pluginDir host info = .ok dir) {seg : String}
    (hseg : Flat seg) (hname : info.name ≠ ".") (hversion : info.version ≠ ".") {x y : List Char} :
    IsFileIn (binDirs host ++ [x, y]) (Config.join (versionDir host info) seg) ↔
      (':' ∉ seg.toList ∧ trimEnd seg.toList ≠ []) ∧
        x = dropDot info.name.toList ∧ y = dropDot info.version.toList := by
  obtain ⟨hn, hv⟩ := isSegment_of_pluginDir hdir
  have hup : isUp seg.toList = false := by simpa [isUp] using hseg.not_up
  rw [IsFileIn, normalise_join hseg.no_sep, dirsOf_versionDir hdir, enter_of_segment hn,
    enter_of_segment hv, if_neg hname, if_neg hversion, finish, hseg.component, hup]
  by_cases hcolon : ':' ∈ seg.toList
  · refine iff_of_false ?_ fun h => h.1.1 hcolon
    rintro ⟨name, -, h⟩
    cases hcut : Text.cutAt [':'] (trimEnd seg.toList) with
    | none => exact Text.cutAt_char_eq_none.mp hcut (colon_mem_trimEnd_iff.mpr hcolon)
    | some p =>
      rw [hcut] at h
      cases congrArg Target.stream h
  · have hcut : Text.cutAt [':'] (trimEnd seg.toList) = none :=
      Text.cutAt_char_eq_none.mpr (mt colon_mem_trimEnd_iff.mp hcolon)
    rw [hcut, and_iff_right hcolon]
    simp only [Bool.not_true, Bool.false_eq_true, if_false, Target.mk.injEq, and_true]
    rw [below]
    constructor
    · rintro ⟨name, hne, h⟩
      split_ifs at h with htrim
      · simpa using congrArg List.length h
      · simp only [List.append_assoc, List.append_cancel_left_eq, List.cons_append,
          List.nil_append, List.cons.injEq, and_true] at h
        exact ⟨htrim, h.1.symm, h.2.1.symm⟩
    · rintro ⟨htrim, rfl, rfl⟩
      refine ⟨_, htrim, ?_⟩
      rw [if_neg htrim]
      simp

theorem toList_partialName (name : String) :
    ("." ++ name ++ ".partial").toList = '.' :: (name.toList ++ ".partial".toList) := by
  simp [String.toList_append]

/-- The name of a partial file is as good as that of the file, and better at the end. -/
theorem flat_partialName {name : String} (h : Flat name) : Flat ("." ++ name ++ ".partial") := by
  constructor
  · intro c hc
    rw [toList_partialName, List.mem_cons, List.mem_append] at hc
    rcases hc with rfl | hc | hc
    · decide
    · exact h.no_sep c hc
    · exact flat_of_all (s := ".partial".toList) (by decide) c hc
  · simp [isComponent]
  · intro heq
    have hlen := congrArg List.length heq
    rw [toList_partialName] at hlen
    simp at hlen

theorem trimEnd_partialName (name : String) :
    trimEnd ("." ++ name ++ ".partial").toList = ("." ++ name ++ ".partial").toList := by
  refine List.rdropWhile_eq_self_iff.mpr fun hne => ?_
  have hlast : ("." ++ name ++ ".partial").toList.getLast hne = 'l' := by simp
  rw [hlast]
  decide

theorem trimEnd_ne_nil (hdir : pluginDir host info = .ok dir)
    (h : info.version ≠ "." ∧ trimEnd info.version.toList = dropDot info.version.toList) :
    trimEnd info.version.toList ≠ [] := by
  rw [h.2, Ne, dropDot_eq_nil_iff, not_or]
  exact ⟨(isSegment_of_pluginDir hdir).2.ne_nil,
    fun hdot => h.1 ((String.toList_inj : _ = ".".toList ↔ _).mp hdot)⟩

/-- **Where the files of a package are.** Both paths of a download are those of files in the
directory of the package if its names are plain. -/
theorem inOwnDir_iff (hdir : pluginDir host info = .ok dir)
    (hfile : validateFilename host filename = .ok ()) :
    InOwnDir host info filename ↔ Plain info filename := by
  have hflat := flat_of_validateFilename hfile
  constructor
  · rintro ⟨x, y, h, hfinal, -⟩
    obtain ⟨⟨hname, hversion, -⟩, rfl, hy⟩ := (normalise_versionDir_iff hdir).mp h
    obtain ⟨hfilename, -, rfl⟩ := (isFileIn_join_iff hdir hflat hname hversion).mp hfinal
    exact ⟨hname, ⟨hversion, hy.symm⟩, hfilename⟩
  · intro h
    obtain ⟨hversion, htrim⟩ := h.version
    have hne : trimEnd info.version.toList ≠ [] := trimEnd_ne_nil hdir h.version
    refine ⟨_, _, (normalise_versionDir_iff hdir).mpr ⟨⟨h.name, hversion, hne⟩, rfl, rfl⟩, ?_, ?_⟩
    · exact (isFileIn_join_iff hdir hflat h.name hversion).mpr ⟨h.filename, rfl, htrim⟩
    · refine (isFileIn_join_iff hdir (flat_partialName hflat) h.name hversion).mpr
        ⟨⟨?_, ?_⟩, rfl, htrim⟩
      · simpa [toList_partialName] using h.filename.1
      · rw [trimEnd_partialName, toList_partialName]
        exact List.cons_ne_nil _ _

/-! ### Two packages -/

variable {p q : PluginInfoForAgent} {f g dp dq : String}

/-- The texts differ in case at most, which is for the file system to say. -/
def SameCase (fold : Char → Char) (a b : List Char) : Prop := a.map fold = b.map fold

instance (fold : Char → Char) (a b : List Char) : Decidable (SameCase fold a b) :=
  inferInstanceAs (Decidable (_ = _))

/-- The packages differ in name or version, and not in case only. -/
def Distinct (fold : Char → Char) (p q : PluginInfoForAgent) : Prop :=
  ¬(SameCase fold p.name.toList q.name.toList ∧ SameCase fold p.version.toList q.version.toList)

/-- The packages have two directories. -/
def DistinctDirs (fold : Char → Char) (host : PluginHost) (p q : PluginInfoForAgent) : Prop :=
  (normalise (versionDir host p).toList).comps.map (List.map fold)
    ≠ (normalise (versionDir host q).toList).comps.map (List.map fold)

/-- They differ in more than case and the periods that the normalisation takes away. -/
def DistinctNames (fold : Char → Char) (p q : PluginInfoForAgent) : Prop :=
  ¬(SameCase fold (dropDot p.name.toList) (dropDot q.name.toList) ∧
    SameCase fold (dropDot p.version.toList) (dropDot q.version.toList))

theorem distinctDirs_iff {fold : Char → Char} (hp : pluginDir host p = .ok dp)
    (hq : pluginDir host q = .ok dq) (hpf : Plain p f) (hqg : Plain q g) :
    DistinctDirs fold host p q ↔ DistinctNames fold p q := by
  have hdirs {info : PluginInfoForAgent} {filename dir : String}
      (hdir : pluginDir host info = .ok dir) (h : Plain info filename) :
      (normalise (versionDir host info).toList).comps
        = binDirs host ++ [dropDot info.name.toList, dropDot info.version.toList] := by
    obtain ⟨hname, hversion⟩ := isSegment_of_pluginDir hdir
    rw [normalise_versionDir hdir, finish_of_segment hversion, enter_of_segment hname,
      if_neg h.name, if_neg h.version.1, below, if_neg (trimEnd_ne_nil hdir h.version),
      h.version.2, List.append_assoc]
    rfl
  rw [DistinctDirs, DistinctNames, hdirs hp hpf, hdirs hq hqg, Ne, not_iff_not]
  simp only [List.map_append, List.append_cancel_left_eq, List.map_cons, List.map_nil,
    List.cons.injEq, and_true, SameCase]

/-- **Files stay in the directory of their package, and packages apart**, if the names are plain and
differ in more than case and a period at the end. -/
theorem ownDirs_iff (fold : Char → Char) (hp : pluginDir host p = .ok dp)
    (hq : pluginDir host q = .ok dq) (hf : validateFilename host f = .ok ())
    (hg : validateFilename host g = .ok ()) :
    ((InOwnDir host p f ∧ InOwnDir host q g) ∧
        (Distinct fold p q → DistinctDirs fold host p q)) ↔
      (Plain p f ∧ Plain q g) ∧ (Distinct fold p q → DistinctNames fold p q) := by
  rw [inOwnDir_iff hp hf, inOwnDir_iff hq hg]
  refine and_congr_right fun h => ?_
  rw [distinctDirs_iff hp hq h.1 h.2]

/-! ### Names that lead astray -/

/-- A package of one file. -/
def tool (name version : String) : PluginInfoForAgent where
  name := name
  vendor := "Acme"
  version := version
  artifactFilename := "tool.exe"
  autoLaunch := true

theorem tools_apart :
    (InOwnDir plainHost (tool "acme" "1.0") "tool.exe" ∧
        InOwnDir plainHost (tool "acme" "2.0") "tool.exe") ∧
      DistinctDirs Char.toLower plainHost (tool "acme" "1.0") (tool "acme" "2.0") := by
  have hplain (version : String) (h : version ≠ "." ∧
      trimEnd version.toList = dropDot version.toList) : Plain (tool "acme" version) "tool.exe" :=
    ⟨(by decide : "acme" ≠ "."), h, by decide⟩
  obtain ⟨hown, hdirs⟩ := (ownDirs_iff Char.toLower
    (rfl : pluginDir plainHost (tool "acme" "1.0") = .ok _)
    (rfl : pluginDir plainHost (tool "acme" "2.0") = .ok _)
    (rfl : validateFilename plainHost "tool.exe" = .ok ())
    (rfl : validateFilename plainHost "tool.exe" = .ok ())).mpr
    ⟨⟨hplain "1.0" (by decide), hplain "2.0" (by decide)⟩, fun _ h => absurd h.2 (by decide)⟩
  exact ⟨hown, hdirs fun h => absurd h.2 (by decide)⟩

/-- A single dot for a name; names that differ in a period; a stream. All of them are accepted. -/
theorem names_astray :
    ((pluginDir plainHost (tool "." "1.0")).isOk = true ∧
        validateFilename plainHost "tool.exe" = .ok () ∧
        ¬InOwnDir plainHost (tool "." "1.0") "tool.exe") ∧
      ((pluginDir plainHost (tool "acme" "1.0")).isOk = true ∧
        (pluginDir plainHost (tool "acme." "1.0")).isOk = true ∧
        Distinct Char.toLower (tool "acme" "1.0") (tool "acme." "1.0") ∧
        ¬DistinctDirs Char.toLower plainHost (tool "acme" "1.0") (tool "acme." "1.0")) ∧
      validateFilename plainHost "tool.exe:x" = .ok () ∧
      ¬InOwnDir plainHost (tool "acme" "1.0") "tool.exe:x" := by
  have hplain (name : String) (h : name ≠ ".") : Plain (tool name "1.0") "tool.exe" :=
    ⟨h, (by decide : "1.0" ≠ "." ∧ trimEnd "1.0".toList = dropDot "1.0".toList), by decide⟩
  refine ⟨⟨rfl, rfl, ?_⟩, ⟨rfl, rfl, ?_, ?_⟩, rfl, ?_⟩
  · rw [inOwnDir_iff (rfl : pluginDir plainHost (tool "." "1.0") = .ok _) rfl]
    exact fun h => h.name rfl
  · exact fun h => absurd h.1 (by decide)
  · rw [distinctDirs_iff (rfl : pluginDir plainHost (tool "acme" "1.0") = .ok _)
      (rfl : pluginDir plainHost (tool "acme." "1.0") = .ok _) (hplain "acme" (by decide))
      (hplain "acme." (by decide))]
    exact fun h => h ⟨rfl, rfl⟩
  · rw [inOwnDir_iff (rfl : pluginDir plainHost (tool "acme" "1.0") = .ok _) rfl]
    exact fun h => absurd h.filename.1 (by decide)

end Plugin

end WazabiAgent
