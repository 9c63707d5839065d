import Elyra.Framework.Python
import Elyra.Framework.Text
import Mathlib.Data.List.Infix
import Mathlib.Data.List.Sort
import Mathlib.Data.String.Basic

namespace Elyra.Tools

/-- Where a path resolves to: its parts below `tools/local`, or a place outside. -/
abbrev Place := Option (List String)

/-- An entry of `tools/local`: whether it is a directory, where it resolves to, and the links
under `tools/local` that its resolution goes through after the entry itself. -/
structure LocalEntry where
  name : String
  isDir : Bool
  target : Place
  way : List (List String)
  deriving DecidableEq

/-- The entries of `tools/local`; each name stands once, and no entry resolves to a link. -/
structure LocalDir where
  entries : List LocalEntry
  names : (entries.map LocalEntry.name).Nodup
  resolved : ∀ c ∈ entries, ∀ d ∈ entries, d.target = some [c.name] → c.target = d.target

/-- `tools/local` with the places that were removed of it since. -/
structure LocalTree extends LocalDir where
  removed : List (List String)

/-- A removed place is the one given or lies above it. -/
def covers (removed : List String) : Place → Bool
  | none => false
  | some parts => removed.isPrefixOf parts

/-- The places an entry needs to be there to be a directory. -/
def LocalEntry.places (c : LocalEntry) : List Place :=
  some [c.name] :: c.target :: c.way.map some

namespace LocalTree

def isDir (t : LocalTree) (c : LocalEntry) : Bool :=
  c.isDir && t.removed.all fun r => c.places.all fun p => !covers r p

/-- The entries a listing counts as packages. -/
def packages (t : LocalTree) : List String :=
  (t.entries.filter fun c => t.isDir c && c.name.toList.head? ≠ some '.').map LocalEntry.name

end LocalTree

/-- `local_tool_package_names`, with `iterdir` raising or not. -/
def localToolPackageNames (fails : Bool) (t : LocalTree) : List String :=
  if fails then [] else t.packages

/-- `[a-z0-9_]` without regard to case. -/
def nameChar (c : Char) : Bool := c.isAlphanum || c ∈ ['_', 'İ', 'ı', 'ſ', 'K']

def isValidToolName (name : String) : Bool :=
  match strip name.toList with
  | [] => false
  | c :: cs => nameChar c && cs.all fun c => nameChar c || c = '-'

/-- How `shutil.rmtree` ends: `none` where the directory is gone, else the parts below it that
were removed before an `OSError`. -/
abbrev Removal := Option (List (List String))

def removedPlaces (target : List String) : Removal → List (List String)
  | none => [target]
  | some below => (below.filter (· ≠ [])).map (target ++ ·)

/-- The directory a name under `tools/local` resolves to, when it lies there. -/
def planted (t : LocalTree) (name : String) : Option (List String) :=
  (t.entries.find? fun c => c.name = name && t.isDir c).bind LocalEntry.target

/-- `remove_planted_local_packages` on the sorted names. -/
def removePlanted (rm : String → Removal) : List String → LocalTree → List String × LocalTree
  | [], t => ([], t)
  | name :: names, t =>
    if !isValidToolName name then removePlanted rm names t
    else
      match planted t name with
      | none => removePlanted rm names t
      | some target =>
        let rest := removePlanted rm names
          { t with removed := t.removed ++ removedPlaces target (rm name) }
        (if (rm name).isNone then name :: rest.1 else rest.1, rest.2)

/-- What the smoke import and the tests give: an exception, an error of the guest, or an exit code
with the log and whether they timed out. -/
inductive TestOutcome where
  | raised (e : PyErr)
  | error (reason : String) (log : Option String) (returncode : Option Int)
  | ran (rc : Int) (log : String) (timedOut : Bool)
  deriving DecidableEq

/-- All that `verify_draft_tool` meets: the draft, the staging, the tests with the `tools/local`
they leave, the listings that fail, the removals and the errors of the digest and the record. -/
structure Verification where
  draftExists : Bool
  shapeError : Option String
  stageError : Option String
  backend : String
  tests : TestOutcome
  after : LocalDir
  beforeFails : Bool
  afterFails : Bool
  contentHash : Except PyErr String
  removal : String → Removal
  recordError : Option PyErr

structure VerifyResult where
  ok : Bool
  errorReason : Option String
  passed : Bool
  contentHash : Option String
  log : Option String
  returncode : Option Int
  planted : List String
  plantedRemoved : List String
  toolName : Option String
  executorBackend : Option String
  deriving DecidableEq

def refused (reason : String) : VerifyResult :=
  ⟨false, some reason, false, none, none, none, [], [], none, none⟩

/-- The names of the second listing that the first one lacks. -/
def plantedNames (v : Verification) (t : LocalTree) : List String :=
  ((localToolPackageNames v.afterFails ⟨v.after, []⟩).filter
    (· ∉ localToolPackageNames v.beforeFails t)).insertionSort (· ≤ ·)

/-- `verify_draft_tool` from the tests that ran to its return. -/
def verifyRan (v : Verification) (name : String) (t : LocalTree) (rc : Int) (log : String)
    (timedOut : Bool) : Except PyErr VerifyResult × LocalTree :=
  match v.contentHash with
  | .error e => (.error e, ⟨v.after, []⟩)
  | .ok treeHash =>
    let found := plantedNames v t
    if found ≠ [] then
      let gone := removePlanted v.removal found ⟨v.after, []⟩
      (.ok ⟨false, some "verify_local_planted", false, some treeHash, some log, some rc, found,
        gone.1, none, some v.backend⟩, gone.2)
    else if rc ≠ 0 ∨ timedOut then
      (.ok ⟨false, some (if timedOut then "verify_timeout" else "verify_failed"), false,
        some treeHash, some log, some rc, [], [], none, some v.backend⟩, ⟨v.after, []⟩)
    else
      match v.recordError with
      | some e => (.error e, ⟨v.after, []⟩)
      | none =>
        (.ok ⟨true, none, true, some treeHash, some log, some rc, [], [],
          some (.ofList (strip name.toList)), some v.backend⟩, ⟨v.after, []⟩)

/-- The first check that ends the call before the tests. -/
def precheck (v : Verification) (name : String) : Option String :=
  if !isValidToolName name then some "invalid_name"
  else if !v.draftExists then some "draft_missing"
  else v.shapeError.or (v.stageError.map ("stage_failed:" ++ ·))

def verifyDraftTool (v : Verification) (name : String) (t : LocalTree) :
    Except PyErr VerifyResult × LocalTree :=
  match precheck v name with
  | some reason => (.ok (refused reason), t)
  | none =>
    match v.tests with
    | .raised e => (.error e, ⟨v.after, []⟩)
    | .error reason log returncode =>
      (v.contentHash.map fun treeHash =>
        ⟨false, some reason, false, some treeHash, log, returncode, [], [], none, some v.backend⟩,
        ⟨v.after, []⟩)
    | .ran rc log timedOut => verifyRan v name t rc log timedOut


section Places

theorem covers_iff {r : List String} {p : Place} :
    covers r p = true ↔ ∃ parts, p = some parts ∧ r <+: parts := by
  cases p with
  | none => simp [covers]
  | some parts => simp [covers]

theorem covers_trans {r s : List String} {p : Place} (h : r <+: s) (hs : covers s p = true) :
    covers r p = true := by
  obtain ⟨parts, rfl, hprefix⟩ := covers_iff.mp hs
  exact covers_iff.mpr ⟨parts, rfl, h.trans hprefix⟩

namespace LocalTree

variable {t t' : LocalTree} {c d : LocalEntry} {name : String}

theorem isDir_iff : t.isDir c = true ↔
    c.isDir = true ∧ ∀ r ∈ t.removed, ∀ p ∈ c.places, covers r p = false := by
  simp [isDir]

theorem isDir_mono (h : t.removed ⊆ t'.removed) (hc : t'.isDir c = true) : t.isDir c = true := by
  rw [isDir_iff] at hc ⊢
  exact ⟨hc.1, fun r hr => hc.2 r (h hr)⟩

theorem mem_packages : name ∈ t.packages ↔
    ∃ c ∈ t.entries, c.name = name ∧ t.isDir c = true ∧ name.toList.head? ≠ some '.' := by
  rw [packages, List.mem_map]
  constructor
  · rintro ⟨c, hc, rfl⟩
    obtain ⟨hmem, hdir⟩ := List.mem_filter.mp hc
    rw [Bool.and_eq_true, decide_eq_true_iff] at hdir
    exact ⟨c, hmem, rfl, hdir.1, hdir.2⟩
  · rintro ⟨c, hmem, rfl, hdir, hdot⟩
    refine ⟨c, List.mem_filter.mpr ⟨hmem, ?_⟩, rfl⟩
    rw [Bool.and_eq_true, decide_eq_true_iff]
    exact ⟨hdir, hdot⟩

theorem entry_unique (t : LocalDir) (hc : c ∈ t.entries) (hd : d ∈ t.entries)
    (h : c.name = d.name) : c = d := List.inj_on_of_nodup_map t.names hc hd h

theorem planted_iff {target : List String} : planted t name = some target ↔
    ∃ c ∈ t.entries, c.name = name ∧ t.isDir c = true ∧ c.target = some target := by
  rw [planted, Option.bind_eq_some_iff]
  constructor
  · rintro ⟨c, hfind, htarget⟩
    have hc := List.find?_some hfind
    rw [Bool.and_eq_true, decide_eq_true_iff] at hc
    exact ⟨c, List.mem_of_find?_eq_some hfind, hc.1, hc.2, htarget⟩
  · rintro ⟨c, hmem, hname, hdir, htarget⟩
    have hsome : (t.entries.find? fun d => d.name = name && t.isDir d).isSome := by
      rw [List.find?_isSome]
      exact ⟨c, hmem, by simp [hname, hdir]⟩
    obtain ⟨d, hfind⟩ := Option.isSome_iff_exists.mp hsome
    have hd := List.find?_some hfind
    rw [Bool.and_eq_true, decide_eq_true_iff] at hd
    have hsame : d = c :=
      entry_unique t.toLocalDir (List.mem_of_find?_eq_some hfind) hmem (hd.1.trans hname.symm)
    exact ⟨d, hfind, hsame ▸ htarget⟩

end LocalTree
end Places

section Loop

variable {rm : String → Removal}

/-- Nothing of the listing changes, and what is removed belongs to a planted name. -/
theorem removePlanted_removed (names : List String) (t : LocalTree) :
    (removePlanted rm names t).2.toLocalDir = t.toLocalDir ∧
      t.removed ⊆ (removePlanted rm names t).2.removed ∧
      ∀ r ∈ (removePlanted rm names t).2.removed, r ∈ t.removed ∨
        ∃ name ∈ names, isValidToolName name = true ∧
          ∃ target, planted t name = some target ∧ r ∈ removedPlaces target (rm name) := by
  induction names generalizing t with
  | nil => exact ⟨rfl, List.Subset.refl t.removed, fun r hr => .inl hr⟩
  | cons name names ih =>
    have later (r : List String) (h : r ∈ t.removed ∨ ∃ name ∈ names, isValidToolName name = true ∧
        ∃ target, planted t name = some target ∧ r ∈ removedPlaces target (rm name)) :
        r ∈ t.removed ∨ ∃ n ∈ name :: names, isValidToolName n = true ∧
          ∃ target, planted t n = some target ∧ r ∈ removedPlaces target (rm n) :=
      h.imp id fun ⟨n, hn, hrest⟩ => ⟨n, List.mem_cons_of_mem name hn, hrest⟩
    rw [removePlanted]
    split
    · obtain ⟨hdir, hsub, hold⟩ := ih t
      exact ⟨hdir, hsub, fun r hr => later r (hold r hr)⟩
    · rename_i hvalid
      rw [Bool.not_eq_true', Bool.not_eq_false] at hvalid
      split
      · obtain ⟨hdir, hsub, hold⟩ := ih t
        exact ⟨hdir, hsub, fun r hr => later r (hold r hr)⟩
      · rename_i target hplanted
        let t₁ : LocalTree := { t with removed := t.removed ++ removedPlaces target (rm name) }
        obtain ⟨hdir, hsub, hold⟩ := ih t₁
        refine ⟨hdir, fun r hr => hsub (List.mem_append_left _ hr), ?_⟩
        intro r hr
        obtain hr | ⟨n, hn, hv, target', hp, hr⟩ := hold r hr
        · obtain hr | hr := List.mem_append.mp hr
          · exact .inl hr
          · exact .inr ⟨name, List.mem_cons_self, hvalid, target, hplanted, hr⟩
        · obtain ⟨c, hc, hname, hisdir, htarget⟩ := LocalTree.planted_iff.mp hp
          have hbefore : t.isDir c = true :=
            LocalTree.isDir_mono (fun q hq => List.mem_append_left _ hq) hisdir
          exact later r (.inr ⟨n, hn, hv, target',
            LocalTree.planted_iff.mpr ⟨c, hc, hname, hbefore, htarget⟩, hr⟩)

/-- Every removed place is what an entry resolves to. -/
def Targets (t : LocalTree) : Prop := ∀ r ∈ t.removed, ∃ d ∈ t.entries, d.target = some r

/-- Where links lead to their directories directly, an entry that is no directory any more has
lost the place it resolved to. -/
theorem target_removed {t : LocalTree} (hway : ∀ c ∈ t.entries, c.way = []) (ht : Targets t)
    {c : LocalEntry} (hc : c ∈ t.entries) (hdir : c.isDir = true) {target : List String}
    (htarget : c.target = some target) (hnot : t.isDir c = false) :
    ∃ r ∈ t.removed, r <+: target := by
  have hsome : ¬∀ r ∈ t.removed, ∀ p ∈ c.places, covers r p = false := by
    intro h
    rw [LocalTree.isDir_iff.mpr ⟨hdir, h⟩] at hnot
    cases hnot
  push Not at hsome
  obtain ⟨r, hr, p, hp, hcover⟩ := hsome
  obtain ⟨parts, rfl, hprefix⟩ := covers_iff.mp (Bool.eq_true_of_not_eq_false hcover)
  refine ⟨r, hr, ?_⟩
  rw [LocalEntry.places, hway c hc] at hp
  simp only [List.map_nil, List.mem_cons, List.not_mem_nil, or_false] at hp
  obtain hp | hp := hp
  · -- the entry itself: its directory is removed as a whole, or with all of `tools/local`
    cases hp
    obtain ⟨d, hd, hdt⟩ := ht r hr
    obtain rfl | hself : r = [] ∨ r = [c.name] := by
      cases r with
      | nil => exact .inl rfl
      | cons x xs =>
        obtain ⟨hx, hxs⟩ := List.cons_prefix_cons.mp hprefix
        rw [hx, List.prefix_nil.mp hxs]
        exact .inr rfl
    · exact List.nil_prefix
    · have hsame := t.resolved c hc d hd (by rw [hdt, hself])
      rw [hdt, htarget] at hsame
      rw [Option.some.inj hsame]
  · rw [htarget] at hp
    rw [← Option.some.inj hp]
    exact hprefix

/-- Where moreover no removal fails, every planted directory is gone in the end. -/
theorem removePlanted_covers {names : List String} {t : LocalTree} (hrm : ∀ n, rm n = none)
    (hway : ∀ c ∈ t.entries, c.way = []) (ht : Targets t) {c : LocalEntry} (hc : c ∈ t.entries)
    (hdir : c.isDir = true) {target : List String} (htarget : c.target = some target)
    (hname : c.name ∈ names) (hvalid : isValidToolName c.name = true) :
    ∃ r ∈ (removePlanted rm names t).2.removed, r <+: target := by
  induction names generalizing t with
  | nil => cases hname
  | cons name names ih =>
    have rest (hne : name ≠ c.name) : c.name ∈ names :=
      (List.mem_cons.mp hname).resolve_left (Ne.symm hne)
    rw [removePlanted]
    split
    · rename_i hinvalid
      apply ih hway ht hc
      apply rest
      rintro rfl
      rw [hvalid] at hinvalid
      cases hinvalid
    · split
      · rename_i hnone
        by_cases hne : name = c.name
        · have hnot : t.isDir c = false := by
            by_contra h
            rw [Bool.not_eq_false] at h
            rw [LocalTree.planted_iff.mpr ⟨c, hc, hne.symm, h, htarget⟩] at hnone
            cases hnone
          obtain ⟨r, hr, hprefix⟩ := target_removed hway ht hc hdir htarget hnot
          exact ⟨r, (removePlanted_removed names t).2.1 hr, hprefix⟩
        · exact ih hway ht hc (rest hne)
      · rename_i other hplanted
        obtain ⟨d, hd, hdname, -, hdtarget⟩ := LocalTree.planted_iff.mp hplanted
        rw [hrm name]
        let t₁ : LocalTree := { t with removed := t.removed ++ [other] }
        by_cases hne : name = c.name
        · have hsame : d = c := LocalTree.entry_unique t.toLocalDir hd hc (hdname.trans hne)
          have hother : other = target := by
            rw [hsame, htarget] at hdtarget
            exact (Option.some.inj hdtarget).symm
          refine ⟨other, (removePlanted_removed names t₁).2.1 ?_, hother ▸ List.prefix_rfl⟩
          exact List.mem_append_right _ List.mem_cons_self
        · apply ih (t := t₁) hway ?_ hc (rest hne)
          intro r hr
          obtain hr | hr := List.mem_append.mp hr
          · exact ht r hr
          · exact ⟨d, hd, by rw [hdtarget, List.mem_singleton.mp hr]⟩

end Loop

section Claim

/-- The packages that were there are there, and after a success no others. -/
def Unharmed (t t' : LocalTree) (r : VerifyResult) : Prop :=
  (∀ e ∈ t.packages, e ∈ t'.packages) ∧ (r.ok = true → ∀ e ∈ t'.packages, e ∈ t.packages)

def afterTests (v : Verification) : LocalTree := ⟨v.after, []⟩

/-- Removing a planted name takes away a place that a package needs: it is a link to it, to
`tools/local` itself, or holds a directory the package is a link to. -/
def HitBy (v : Verification) (name e : String) : Prop :=
  ∃ target, planted (afterTests v) name = some target ∧
    ∃ r ∈ removedPlaces target (v.removal name), ∃ c ∈ v.after.entries, c.name = e ∧
      ∃ p ∈ c.places, covers r p = true

instance (v : Verification) (name e : String) : Decidable (HitBy v name e) :=
  match h : planted (afterTests v) name with
  | none => isFalse (by rintro ⟨target, htarget, -⟩; rw [h] at htarget; cases htarget)
  | some target =>
    decidable_of_iff (∃ r ∈ removedPlaces target (v.removal name), ∃ c ∈ v.after.entries,
        c.name = e ∧ ∃ p ∈ c.places, covers r p = true)
      ⟨fun hr => ⟨target, h, hr⟩,
        by rintro ⟨other, hother, hr⟩; rw [h] at hother; cases hother; exact hr⟩

/-- The tests leave the packages in place; no package is listed as planted or hit by the removal
of a planted name; and where the second listing fails, tests that pass plant nothing. -/
structure Harmless (v : Verification) (t : LocalTree) : Prop where
  tests : ∀ e ∈ t.packages, e ∈ (afterTests v).packages
  removals : ∀ rc log timedOut, v.tests = .ran rc log timedOut → ∀ name ∈ plantedNames v t,
    isValidToolName name = true → ∀ e ∈ t.packages, ¬HitBy v name e
  unlisted : ∀ log, v.tests = .ran 0 log false → v.afterFails = true →
    ∀ e ∈ (afterTests v).packages, e ∈ t.packages

variable {v : Verification} {name : String} {t t' : LocalTree} {r : VerifyResult}

theorem mem_plantedNames : name ∈ plantedNames v t ↔
    name ∈ localToolPackageNames v.afterFails (afterTests v) ∧
      name ∉ localToolPackageNames v.beforeFails t := by
  rw [plantedNames, List.mem_insertionSort, List.mem_filter, decide_eq_true_iff]
  rfl

/-- What a package needs is there as long as no planted name hits it. -/
theorem kept_of_not_hit {e : String} (he : e ∈ (afterTests v).packages) {names : List String}
    (hhit : ∀ n ∈ names, isValidToolName n = true → ¬HitBy v n e) :
    e ∈ (removePlanted v.removal names (afterTests v)).2.packages := by
  obtain ⟨hdir, -, hremoved⟩ := @removePlanted_removed v.removal names (afterTests v)
  obtain ⟨c, hc, hname, hisdir, hdot⟩ := LocalTree.mem_packages.mp he
  refine LocalTree.mem_packages.mpr ⟨c, by rw [hdir]; exact hc, hname, ?_, hdot⟩
  rw [LocalTree.isDir_iff]
  refine ⟨(LocalTree.isDir_iff.mp hisdir).1, ?_⟩
  intro r hr p hp
  by_contra hcover
  obtain hr | ⟨n, hn, hv, target, htarget, hr⟩ := hremoved r hr
  · cases hr
  · exact hhit n hn hv ⟨target, htarget, r, hr, c, hc, hname, p, hp,
      Bool.eq_true_of_not_eq_false hcover⟩

/-- What a package needs is gone once a planted name that hits it is removed. -/
theorem not_kept_of_hit {e : String} (hway : ∀ c ∈ v.after.entries, c.way = [])
    (hrm : ∀ n, v.removal n = none) {names : List String} (hname : name ∈ names)
    (hvalid : isValidToolName name = true) (hhit : HitBy v name e) :
    e ∉ (removePlanted v.removal names (afterTests v)).2.packages := by
  obtain ⟨target, hplanted, r, hr, c, hc, hce, p, hp, hcover⟩ := hhit
  obtain ⟨d, hd, rfl, hddir, hdtarget⟩ := LocalTree.planted_iff.mp hplanted
  rw [hrm d.name] at hr
  obtain rfl := List.mem_singleton.mp hr
  have hnone : Targets (afterTests v) := fun _ h => nomatch h
  obtain ⟨s, hs, hprefix⟩ := removePlanted_covers hrm hway hnone hd
    (LocalTree.isDir_iff.mp hddir).1 hdtarget hname hvalid
  intro hkept
  obtain ⟨hdir, -⟩ := @removePlanted_removed v.removal names (afterTests v)
  obtain ⟨c', hc', hce', hisdir, -⟩ := LocalTree.mem_packages.mp hkept
  rw [hdir] at hc'
  have hsame : c' = c := LocalTree.entry_unique v.after hc' hc (hce'.trans hce.symm)
  have hfree := (LocalTree.isDir_iff.mp hisdir).2 s hs p (hsame ▸ hp)
  rw [covers_trans hprefix hcover] at hfree
  cases hfree

theorem packages_after {e : String} {names : List String}
    (he : e ∈ (removePlanted v.removal names (afterTests v)).2.packages) :
    e ∈ (afterTests v).packages := by
  obtain ⟨hdir, hsub, -⟩ := @removePlanted_removed v.removal names (afterTests v)
  obtain ⟨c, hc, hname, hisdir, hdot⟩ := LocalTree.mem_packages.mp he
  rw [hdir] at hc
  exact LocalTree.mem_packages.mpr ⟨c, hc, hname, LocalTree.isDir_mono hsub hisdir, hdot⟩

/-- How a call that came to the tests returns. -/
theorem verify_cases (hpre : precheck v name = none)
    (h : verifyDraftTool v name t = (.ok r, t')) :
    (t' = afterTests v ∧ r.ok = false ∧ ∀ rc log timedOut, v.tests ≠ .ran rc log timedOut) ∨
    ∃ rc log timedOut, v.tests = .ran rc log timedOut ∧
      ((plantedNames v t ≠ [] ∧ r.ok = false ∧
          t' = (removePlanted v.removal (plantedNames v t) (afterTests v)).2) ∨
        (plantedNames v t = [] ∧ t' = afterTests v ∧ (r.ok = true ↔ rc = 0 ∧ timedOut = false))) := by
  rw [verifyDraftTool, hpre] at h
  dsimp only at h
  cases htests : v.tests with
  | raised e =>
    rw [htests] at h
    cases h
  | error reason log returncode =>
    rw [htests] at h
    cases hhash : v.contentHash with
    | error e =>
      rw [hhash] at h
      cases h
    | ok treeHash =>
      rw [hhash] at h
      cases h
      exact .inl ⟨rfl, rfl, fun _ _ _ hran => nomatch hran⟩
  | ran rc log timedOut =>
    rw [htests] at h
    refine .inr ⟨rc, log, timedOut, rfl, ?_⟩
    dsimp only at h
    rw [verifyRan] at h
    cases hhash : v.contentHash with
    | error e =>
      rw [hhash] at h
      cases h
    | ok treeHash =>
      rw [hhash] at h
      dsimp only at h
      split at h
      · rename_i hfound
        cases h
        exact .inl ⟨hfound, rfl, rfl⟩
      · rename_i hfound
        rw [not_not] at hfound
        split at h
        · rename_i hfailed
          cases h
          refine .inr ⟨hfound, rfl, ?_⟩
          simp only [Bool.false_eq_true, false_iff]
          rintro ⟨hrc, hout⟩
          exact hfailed.elim (fun hne => hne hrc) (fun ht => by rw [ht] at hout; cases hout)
        · rename_i hpassed
          rw [not_or, not_not, Bool.not_eq_true] at hpassed
          split at h
          · cases h
          · cases h
            exact .inr ⟨hfound, rfl, fun _ => hpassed, fun _ => rfl⟩

theorem plantedNames_of_fails (h : v.afterFails = true) : plantedNames v t = [] := by
  rw [List.eq_nil_iff_forall_not_mem]
  intro name hname
  rw [mem_plantedNames, h] at hname
  cases hname.1

theorem listed_before {e : String} (hlist : v.afterFails = false) (hnone : plantedNames v t = [])
    (he : e ∈ (afterTests v).packages) : e ∈ t.packages := by
  have hnot : e ∉ plantedNames v t := by
    rw [hnone]
    exact List.not_mem_nil
  rw [mem_plantedNames, hlist] at hnot
  have hbefore : e ∈ localToolPackageNames v.beforeFails t := by
    by_contra hmem
    exact hnot ⟨he, hmem⟩
  unfold localToolPackageNames at hbefore
  split at hbefore
  · cases hbefore
  · exact hbefore

/-- A verification that returns leaves the tools as they were if it is harmless; and only then,
where the links the tests leave lead directly to their directories and no removal fails. -/
theorem verify_keeps_tools (v : Verification) (name : String) (t t' : LocalTree)
    (r : VerifyResult) (h : verifyDraftTool v name t = (.ok r, t')) :
    ((precheck v name = none → Harmless v t) → Unharmed t t' r) ∧
      ((∀ c ∈ v.after.entries, c.way = []) → (∀ n, v.removal n = none) → Unharmed t t' r →
        precheck v name = none → Harmless v t) := by
  cases hpre : precheck v name with
  | some reason =>
    rw [verifyDraftTool, hpre] at h
    cases h
    exact ⟨fun _ => ⟨fun _ he => he, fun _ _ he => he⟩, fun _ _ _ hnone => nomatch hnone⟩
  | none =>
    obtain ⟨rfl, hok, hnot⟩ | ⟨rc, log, timedOut, hran, hcase⟩ := verify_cases hpre h
    · constructor
      · intro hsafe
        refine ⟨(hsafe rfl).tests, ?_⟩
        rw [hok]
        exact fun hfalse => absurd hfalse Bool.false_ne_true
      · rintro - - hunharmed -
        exact ⟨hunharmed.1, fun rc log timedOut hran => absurd hran (hnot rc log timedOut),
          fun log hran => absurd hran (hnot 0 log false)⟩
    · obtain ⟨hfound, hok, rfl⟩ | ⟨hnone, rfl, hok⟩ := hcase
      · constructor
        · intro hsafe
          constructor
          · intro e he
            exact kept_of_not_hit ((hsafe rfl).tests e he) fun n hn hv =>
              (hsafe rfl).removals rc log timedOut hran n hn hv e he
          · rw [hok]
            exact fun hfalse => absurd hfalse Bool.false_ne_true
        · rintro hway hrm hunharmed -
          constructor
          · exact fun e he => packages_after (hunharmed.1 e he)
          · rintro rc' log' timedOut' - n hn hv e he hhit
            exact not_kept_of_hit hway hrm hn hv hhit (hunharmed.1 e he)
          · rintro log' - hfails
            exact absurd (plantedNames_of_fails hfails) hfound
      · constructor
        · intro hsafe
          refine ⟨(hsafe rfl).tests, ?_⟩
          intro hpassed e he
          obtain ⟨rfl, rfl⟩ := hok.mp hpassed
          cases hlist : v.afterFails with
          | true => exact (hsafe rfl).unlisted log hran hlist e he
          | false => exact listed_before hlist hnone he
        · rintro - - hunharmed -
          constructor
          · exact hunharmed.1
          · intro _ _ _ _ n hn
            rw [hnone] at hn
            cases hn
          · intro log' hran' _
            cases hran.symm.trans hran'
            exact hunharmed.2 (hok.mpr ⟨rfl, rfl⟩)

end Claim

section Sample

def webTools : LocalDir where
  entries := [⟨"web", true, some ["web"], []⟩]
  names := by decide
  resolved := by decide

/-- The tests plant a package and a link to it. -/
def plantedTools : LocalDir where
  entries := [⟨"web", true, some ["web"], []⟩, ⟨"evil", true, some ["evil"], []⟩,
    ⟨"alias", true, some ["evil"], []⟩]
  names := by decide
  resolved := by decide

def passingTests (after : LocalDir) (beforeFails afterFails : Bool) : Verification where
  draftExists := true
  shapeError := none
  stageError := none
  backend := "host"
  tests := .ran 0 "1 passed" false
  after := after
  beforeFails := beforeFails
  afterFails := afterFails
  contentHash := .ok "ab"
  removal := fun _ => none
  recordError := none

theorem verify_keeps_tools_sample :
    Unharmed ⟨webTools, []⟩
      (verifyDraftTool (passingTests plantedTools false false) "draft" ⟨webTools, []⟩).2
      ⟨false, some "verify_local_planted", false, some "ab", some "1 passed", some 0,
        ["alias", "evil"], ["alias"], none, some "host"⟩ := by
  apply (verify_keeps_tools (passingTests plantedTools false false) "draft" ⟨webTools, []⟩ _ _
    (Prod.ext (by decide +kernel) rfl)).1
  intro _
  constructor
  · decide +kernel
  · intro _ _ _ _
    decide +kernel
  · intro _ _ hfails
    cases hfails

/-- The first listing fails and the existing tool is removed as planted. -/
theorem failed_listing_removes_tool :
    ¬∀ v name t t' r, verifyDraftTool v name t = (.ok r, t') → Unharmed t t' r := by
  intro h
  have hunharmed := h (passingTests webTools true false) "draft" ⟨webTools, []⟩ _
    ⟨false, some "verify_local_planted", false, some "ab", some "1 passed", some 0,
      ["web"], ["web"], none, some "host"⟩ (Prod.ext (by decide +kernel) rfl)
  have hkept := hunharmed.1 "web" (by decide +kernel)
  revert hkept
  decide +kernel

end Sample
end Elyra.Tools
