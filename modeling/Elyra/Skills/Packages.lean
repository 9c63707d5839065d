import Elyra.Skills.Frontmatter
import Elyra.Llm.FreshAccess
import Elyra.Secrets.Store
import Elyra.Tools.Verify
import Mathlib.Data.Finset.Max

namespace Elyra.Skills

open Llm (PyText PyChar)
open Secrets (CaseFold stripped)

/-- An entry of a directory of skills: whether it is a directory, and the bytes of its `SKILL.md`
where that is a file. -/
structure Package where
  isDir : Bool
  skillMd : Option ByteArray

/-- The directories under `skills/drafts` with the `SKILL.md` in them, and `skills/local`. -/
structure SkillsHome where
  drafts : Dict String (Option ByteArray)
  localDirs : Dict String Package

/-- An argument of a tool call: a string or something else. -/
inductive Arg (α : Type) where
  | text (a : α)
  | other

structure SkillArgs where
  name : Option (Arg String) := none
  description : Option (Arg PyText) := none
  body : Option (Arg PyText) := none
  force : Bool := false

def maxBodyBytes : Nat := 64 * 1024

def bodyByteLen (text : List Char) : Nat := (encodeUtf8 text).size

/-- `text.encode("utf-8")` before a text is counted or written. -/
def encoded (text : PyText) : Except PyErr (List Char) :=
  if text.encodable then .ok text.shown
  else .error (.valueError [.text "surrogates not allowed"])

def readText (bytes : ByteArray) : Option (List Char) := (decodeUtf8 bytes).map universalNewlines

def isValidSkillName (name : String) : Bool := Tools.isValidToolName name

def hidden (name : String) : Bool := name.toList.head? = some '.'

/-- `validate_skill_package`: the reason to refuse. -/
def validateSkillPackage (skillMd : Option ByteArray) : Except PyErr (Option String) :=
  match skillMd with
  | none => .ok (some "missing_skill_md")
  | some bytes =>
    match readText bytes with
    | none => .error .unicodeDecodeError
    | some text =>
      let fields := parseFrontmatter text
      if maxBodyBytes < bodyByteLen text then .ok (some "body_too_large")
      else if strip (field fields nameKey) = [] ∨ strip (field fields descriptionKey) = [] then
        .ok (some "invalid_frontmatter")
      else .ok none

/-- The reason of a refusal, or none where the call is done. -/
abbrev Outcome := Option String

section Install

/-- The check that every skill tool makes of its name. -/
def nameArg (name : Option (Arg String)) : Except String String :=
  match name with
  | none => .error "missing_name"
  | some .other => .error "invalid_name"
  | some (.text name) =>
    if strip name.toList = [] then .error "missing_name"
    else if isValidSkillName name then .ok (stripped name)
    else .error "invalid_name"

/-- `write_skill_draft`; `failure` is how its file operations fail, and what that leaves. -/
def writeSkillDraft (name : String) (content : List Char) (failure : Option (String × SkillsHome))
    (home : SkillsHome) : Except PyErr (Outcome × SkillsHome) :=
  if !isValidSkillName name then .ok (some "invalid_name", home)
  else if maxBodyBytes < bodyByteLen content then .ok (some "body_too_large", home)
  else
    match failure with
    | some (reason, left) => .ok (some reason, left)
    | none =>
      let written : SkillsHome :=
        { home with drafts := home.drafts.set (stripped name) (some (encodeUtf8 content)) }
      match validateSkillPackage (some (encodeUtf8 content)) with
      | .error e => .error e
      | .ok shapeErr => .ok (shapeErr, written)

/-- `install_skill_draft` once its arguments are strings. -/
def installText (name : String) (description body : PyText)
    (failure : Option (String × SkillsHome)) (home : SkillsHome) :
    Except PyErr (Outcome × SkillsHome) :=
  match encoded body with
  | .error e => .error e
  | .ok body =>
    if maxBodyBytes < bodyByteLen body then .ok (some "body_too_large", home)
    else
      match encoded description with
      | .error e => .error e
      | .ok description =>
        let content := assembleSkillMd name.toList description body
        if maxBodyBytes < bodyByteLen content then .ok (some "body_too_large", home)
        else writeSkillDraft name content failure home

def installSkillDraft (args : SkillArgs) (failure : Option (String × SkillsHome))
    (home : SkillsHome) : Except PyErr (Outcome × SkillsHome) :=
  match nameArg args.name with
  | .error reason => .ok (some reason, home)
  | .ok name =>
    match args.description with
    | some .other => .ok (some "invalid_description", home)
    | description =>
      match args.body with
      | none => .ok (some "missing_body", home)
      | some .other => .ok (some "invalid_body", home)
      | some (.text body) =>
        let description := match description with
          | some (.text description) => description
          | some .other | none => []
        installText name description body failure home

end Install

section Promote

variable [CaseFold]

def normalizeSkillName (name : String) : String := CaseFold.casefold (stripped name)

/-- The first directory in `skills/local` that is called so but for case. -/
def findLocalSkillDir (dirs : Dict String Package) (name : String) : Option String :=
  (dirs.items.find? fun p =>
    p.2.isDir && !hidden p.1 && normalizeSkillName p.1 = normalizeSkillName name).map Prod.fst

def bundledSkillNameExists (bundled : Dict String Package) (name : String) : Bool :=
  bundled.items.any fun p => p.2.isDir && normalizeSkillName p.1 = normalizeSkillName name

def destination (dirs : Dict String Package) (name : String) : String :=
  (findLocalSkillDir dirs name).getD name

/-- `promote_draft_skill`; `swap` is how the lock, the staging and the renames end: a failure with
what it leaves, or done, with the draft removed or not. -/
def promoteDraftSkill (name : String) (bundled : Dict String Package)
    (swap : Except (String × SkillsHome) Bool) (home : SkillsHome) :
    Except PyErr (Outcome × SkillsHome) :=
  if !isValidSkillName name then .ok (some "invalid_name", home)
  else
    let name := stripped name
    match home.drafts.get? name with
    | none => .ok (some "draft_missing", home)
    | some skillMd =>
      match validateSkillPackage skillMd with
      | .error e => .error e
      | .ok (some reason) => .ok (some reason, home)
      | .ok none =>
        if bundledSkillNameExists bundled name then .ok (some "refuses_overwrite_bundled", home)
        else
          match swap with
          | .error (reason, left) => .ok (some reason, left)
          | .ok removed =>
            .ok (none,
              { drafts := if removed then home.drafts.pop name else home.drafts
                localDirs :=
                  home.localDirs.set (destination home.localDirs name) ⟨true, skillMd⟩ })

def promoteSkill (args : SkillArgs) (bundled : Dict String Package)
    (swap : Except (String × SkillsHome) Bool) (home : SkillsHome) :
    Except PyErr (Outcome × SkillsHome) :=
  match nameArg args.name with
  | .error reason => .ok (some reason, home)
  | .ok name =>
    if args.force then .ok (some "force_not_allowed", home)
    else promoteDraftSkill name bundled swap home

end Promote

section Catalog

variable [CaseFold]

inductive Source where
  | bundledRoot | localRoot
  deriving DecidableEq

structure SkillMeta where
  name : String
  description : List Char
  source : Source
  package : String
  body : List Char

/-- `load_skill_meta`: the directory's name is the skill's, whatever the frontmatter says. -/
def loadSkillMeta (source : Source) (includeBody : Bool) (dir : String) (package : Package) :
    Option SkillMeta :=
  (package.skillMd.bind readText).map fun text =>
    { name := dir
      description := orText (describe text) dir.toList
      source
      package := dir
      body := if includeBody then text else [] }

/-- What a scan makes of an entry. -/
def scanPackage (source : Source) (dir : String) (package : Package) : Option SkillMeta :=
  if package.isDir && !hidden dir && isValidSkillName dir then
    loadSkillMeta source false dir package
  else none

def scanRoot (source : Source) (dirs : Dict String Package) : List SkillMeta :=
  (dirs.items.mergeSort fun a b => a.1 ≤ b.1).filterMap fun p => scanPackage source p.1 p.2

def addMeta (found : Dict String SkillMeta) (m : SkillMeta) : Dict String SkillMeta :=
  found.set (normalizeSkillName m.name) m

/-- `SkillCatalog.reload`. -/
def reload (bundled dirs : Dict String Package) : Dict String SkillMeta :=
  (scanRoot .localRoot dirs).foldl addMeta ((scanRoot .bundledRoot bundled).foldl addMeta .empty)

/-- `SkillCatalog.load`. -/
def load (catalog : Dict String SkillMeta) (bundled dirs : Dict String Package) (name : String) :
    Option SkillMeta :=
  if !isValidSkillName name then none
  else
    (catalog.get? (normalizeSkillName name)).bind fun short =>
      let root := match short.source with
        | .bundledRoot => bundled
        | .localRoot => dirs
      (root.get? short.package).bind (loadSkillMeta short.source true short.package)

end Catalog

section Scans

variable [CaseFold]

/-- What a scan of `skills/local` makes of a name. -/
def listed (dirs : Dict String Package) (name : String) : Option SkillMeta :=
  (dirs.get? name).bind (scanPackage .localRoot name)

omit [CaseFold] in
theorem listed_package {dirs : Dict String Package} {name : String} {m : SkillMeta}
    (h : listed dirs name = some m) : m.name = name ∧ m.package = name ∧ m.source = .localRoot := by
  obtain ⟨p, -, hscan⟩ := Option.bind_eq_some_iff.mp h
  rw [scanPackage] at hscan
  split_ifs at hscan
  obtain ⟨text, -, rfl⟩ := Option.map_eq_some_iff.mp hscan
  exact ⟨rfl, rfl, rfl⟩

/-- No directory that is called so but for case and comes later in the order of the scan is
listed. -/
def Topmost (dirs : Dict String Package) (name : String) : Prop :=
  ∀ other, (listed dirs other).isSome → normalizeSkillName other = normalizeSkillName name →
    other ≤ name

theorem get?_foldl_addMeta {later : List SkillMeta} {key : String} {m : SkillMeta}
    (hlater : ∀ x ∈ later, normalizeSkillName x.name ≠ key) (found : Dict String SkillMeta)
    (hm : found.get? key = some m) : (later.foldl addMeta found).get? key = some m := by
  induction later generalizing found with
  | nil => exact hm
  | cons x later ih =>
    obtain ⟨hx, hrest⟩ := List.forall_mem_cons.mp hlater
    refine ih hrest (addMeta found x) ?_
    rw [addMeta, Dict.get?_set_ne _ _ hx]
    exact hm

/-- The catalog shows the last of the packages with a name. -/
theorem get?_reload {bundled dirs : Dict String Package} {name : String} {m : SkillMeta}
    (hm : listed dirs name = some m) (htop : Topmost dirs name) :
    (reload bundled dirs).get? (normalizeSkillName name) = some m := by
  obtain ⟨p, hp, hscan⟩ := Option.bind_eq_some_iff.mp hm
  have hperm := List.mergeSort_perm dirs.items fun a b => decide (a.1 ≤ b.1)
  have hsorted : (dirs.items.mergeSort fun a b => decide (a.1 ≤ b.1)).Pairwise
      fun a b => decide (a.1 ≤ b.1) = true := by
    apply List.pairwise_mergeSort
    · intro a b c hab hbc
      exact decide_eq_true (le_trans (of_decide_eq_true hab) (of_decide_eq_true hbc))
    · intro a b
      rw [Bool.or_eq_true, decide_eq_true_eq, decide_eq_true_eq]
      exact le_total a.1 b.1
  have hmem : (name, p) ∈ dirs.items.mergeSort fun a b => decide (a.1 ≤ b.1) :=
    hperm.mem_iff.mpr ((Dict.get?_eq_some_iff dirs name p).mp hp)
  have hnodup : ((dirs.items.mergeSort fun a b => decide (a.1 ≤ b.1)).map Prod.fst).Nodup :=
    (hperm.map Prod.fst).nodup_iff.mpr dirs.nodup
  obtain ⟨front, later, hsplit⟩ := List.append_of_mem hmem
  have hlater : ∀ x ∈ later.filterMap fun q => scanPackage .localRoot q.1 q.2,
      normalizeSkillName x.name ≠ normalizeSkillName name := by
    intro x hx heq
    obtain ⟨q, hq, hqscan⟩ := List.mem_filterMap.mp hx
    have hqmem : q ∈ dirs.items := by
      refine hperm.mem_iff.mp ?_
      rw [hsplit]
      exact List.mem_append_right _ (List.mem_cons_of_mem _ hq)
    have hqlisted : listed dirs q.1 = some x := by
      rw [listed, (Dict.get?_eq_some_iff dirs q.1 q.2).mpr hqmem]
      exact hqscan
    rw [hsplit, List.pairwise_append] at hsorted
    have hle : name ≤ q.1 := of_decide_eq_true (List.rel_of_pairwise_cons hsorted.2.1 hq)
    have hge : q.1 ≤ name := by
      refine htop q.1 (by rw [hqlisted]; rfl) ?_
      rwa [← (listed_package hqlisted).1]
    rw [hsplit, List.map_append, List.map_cons] at hnodup
    have hnot := (List.nodup_cons.mp (List.nodup_append.mp hnodup).2.1).1
    exact hnot (List.mem_map.mpr ⟨q, hq, le_antisymm hge hle⟩)
  have hroot : scanRoot .localRoot dirs =
      (front ++ (name, p) :: later).filterMap fun q => scanPackage .localRoot q.1 q.2 := by
    rw [scanRoot, hsplit]
  have hfront : ((name, p) :: later).filterMap (fun q => scanPackage .localRoot q.1 q.2) =
      m :: later.filterMap fun q => scanPackage .localRoot q.1 q.2 :=
    List.filterMap_cons_some hscan
  rw [reload, hroot, List.filterMap_append, hfront, List.foldl_append, List.foldl_cons]
  refine get?_foldl_addMeta hlater _ ?_
  rw [addMeta, (listed_package hm).1, Dict.get?_set_self]

theorem mem_of_get?_foldl {metas : List SkillMeta} {key : String} {m : SkillMeta}
    (found : Dict String SkillMeta) (h : (metas.foldl addMeta found).get? key = some m) :
    found.get? key = some m ∨ m ∈ metas ∧ normalizeSkillName m.name = key := by
  induction metas generalizing found with
  | nil => exact .inl h
  | cons x metas ih =>
    obtain hfound | ⟨hmem, hkey⟩ := ih (addMeta found x) h
    · rw [addMeta] at hfound
      by_cases hx : normalizeSkillName x.name = key
      · rw [hx, Dict.get?_set_self] at hfound
        cases hfound
        exact .inr ⟨List.mem_cons_self, hx⟩
      · rw [Dict.get?_set_ne _ _ hx] at hfound
        exact .inl hfound
    · exact .inr ⟨List.mem_cons_of_mem x hmem, hkey⟩

omit [CaseFold] in
theorem mem_scanRoot {source : Source} {dirs : Dict String Package} {m : SkillMeta}
    (h : m ∈ scanRoot source dirs) :
    ∃ name p, dirs.get? name = some p ∧ scanPackage source name p = some m := by
  obtain ⟨q, hq, hscan⟩ := List.mem_filterMap.mp h
  exact ⟨q.1, q.2, (Dict.get?_eq_some_iff dirs q.1 q.2).mpr
    ((List.mergeSort_perm dirs.items _).mem_iff.mp hq), hscan⟩

/-- What the catalog shows is listed, or bundled. -/
theorem of_get?_reload {bundled dirs : Dict String Package} {name : String} {m : SkillMeta}
    (hbundled : bundledSkillNameExists bundled name = false)
    (h : (reload bundled dirs).get? (normalizeSkillName name) = some m) :
    listed dirs m.name = some m ∧ normalizeSkillName m.name = normalizeSkillName name := by
  obtain hfound | ⟨hmem, hkey⟩ := mem_of_get?_foldl _ h
  · obtain hnone | ⟨hmem, hkey⟩ := mem_of_get?_foldl _ hfound
    · cases hnone
    · obtain ⟨dir, p, hp, hscan⟩ := mem_scanRoot hmem
      rw [scanPackage] at hscan
      split_ifs at hscan with hdir
      obtain ⟨text, -, rfl⟩ := Option.map_eq_some_iff.mp hscan
      have hnone := List.any_eq_false.mp hbundled (dir, p)
        ((Dict.get?_eq_some_iff bundled dir p).mp hp)
      rw [Bool.and_eq_true, Bool.and_eq_true] at hdir
      exact absurd ((Bool.and_eq_true _ _).mpr ⟨hdir.1.1, decide_eq_true hkey⟩) hnone
  · obtain ⟨dir, p, hp, hscan⟩ := mem_scanRoot hmem
    have hlisted : listed dirs dir = some m := by
      rw [listed, hp]
      exact hscan
    rw [(listed_package hlisted).1] at hkey ⊢
    exact ⟨hlisted, hkey⟩

/-- A name that is listed in some spelling is listed in a last one. -/
theorem exists_topmost {dirs : Dict String Package} {name : String}
    (h : (listed dirs name).isSome) : ∃ top, (listed dirs top).isSome ∧
      normalizeSkillName top = normalizeSkillName name ∧ Topmost dirs top := by
  let spellings := dirs.keys.toFinset.filter fun n =>
    (listed dirs n).isSome ∧ normalizeSkillName n = normalizeSkillName name
  have hkey {n : String} (hn : (listed dirs n).isSome) : n ∈ dirs.keys := by
    obtain ⟨m, hm⟩ := Option.isSome_iff_exists.mp hn
    obtain ⟨p, hp, -⟩ := Option.bind_eq_some_iff.mp hm
    exact (Dict.mem_keys dirs n).mpr ⟨p, hp⟩
  have hmem {n : String} (hn : (listed dirs n).isSome)
      (hsame : normalizeSkillName n = normalizeSkillName name) : n ∈ spellings :=
    Finset.mem_filter.mpr ⟨List.mem_toFinset.mpr (hkey hn), hn, hsame⟩
  obtain ⟨top, htop, hmax⟩ := Finset.exists_max_image spellings id ⟨name, hmem h rfl⟩
  obtain ⟨-, hlisted, hsame⟩ := Finset.mem_filter.mp htop
  refine ⟨top, hlisted, hsame, ?_⟩
  intro other hother heq
  exact hmax other (hmem hother (heq.trans hsame))

end Scans

end Elyra.Skills
