import Elyra.Skills.Packages
import Elyra.Tools.KeptLines

namespace Elyra.Tools

open Skills (splitlines readText)

/-- An element of `packages`. A text with a lone surrogate is no requirement. -/
inductive PackageArg where
  | other | surrogates
  | text (text : List Char)

structure PipArgs where
  action : Option (List Char)
  packages : Option (List PackageArg)
  /-- `_parse_timeout_seconds` takes `timeout_seconds`. -/
  timeoutValid : Bool

inductive AllowlistFile where
  | missing | unreadable
  | bytes (b : ByteArray)

/-- A file write: done, or failed with this left of the file. -/
inductive WriteOutcome where
  | done
  | failed (left : Option ByteArray)

/-- `try_install_curated_pyenv` and `pyenv_ready` behind it. -/
inductive InstallOutcome where
  | returned (ok ready : Bool) (reason : Option String)
  | raised

def InstallOutcome.succeeds : InstallOutcome → Bool
  | .returned ok ready _ => ok && ready
  | .raised => false

structure PipEnv where
  isolation : Bool
  networkNone : Bool
  allowlist : AllowlistFile
  readable : Bool
  write : WriteOutcome
  install : InstallOutcome
  restore : WriteOutcome

inductive PipAction where
  | add | remove
  deriving DecidableEq

/-- The refusals before the first write; `raised` is a file that is not UTF-8. -/
inductive PipStop where
  | raised
  | refused (reason : String)

inductive PipResult where
  | ok
  | refused (reason : String) (hostReverted : Bool)
  | raised

/-- A call with the requirements file behind it, and what `_restore_requirements` returned. -/
structure PipRun where
  result : PipResult
  file : Option ByteArray
  restored : Option Bool

def PipStop.result : PipStop → PipResult
  | .raised => .raised
  | .refused reason => .refused reason false

structure PipRequest where
  action : PipAction
  parsed : List (List Char × List Char)

section Call

def maxPackagesPerCall : Nat := 10

def maxRequirementsBytes : Nat := 64 * 1024

def requiredCurated : List (List Char) := [['p', 'y', 't', 'e', 's', 't']]

/-- The stripped text, `none` within for one with surrogates. -/
def packageToken : PackageArg → Option (Option (List Char))
  | .other => none
  | .surrogates => some none
  | .text text => if strip text = [] then none else some (some (strip text))

/-- `_validate_packages_arg`. -/
def validatePackagesArg : Option (List PackageArg) → Except String (List (Option (List Char)))
  | none => .error "invalid_args"
  | some raw =>
    if raw.isEmpty then .error "empty_packages"
    else if maxPackagesPerCall < raw.length then .error "packages_too_many"
    else
      match raw.mapM packageToken with
      | none => .error "invalid_package_spec"
      | some tokens => .ok tokens

/-- `_FALLBACK_ALLOWLIST`. -/
def fallbackAllowlist : List (List Char) :=
  ["requests", "httpx", "beautifulsoup4", "pyyaml", "python-dateutil", "regex", "jinja2",
    "packaging", "markdown", "charset-normalizer", "idna", "urllib3", "sniffio", "anyio",
    "certifi", "soupsieve", "markupsafe", "tabulate", "tenacity", "toml", "tomli",
    "typing-extensions", "click", "rich"].map String.toList

/-- `_map_install_error_reason` of the reason that was given. -/
def mapInstallErrorReason (reason : Option String) : String :=
  match reason with
  | some "pyenv_install_timeout" => "pyenv_install_timeout"
  | some "lifecycle_unusable" => "lifecycle_unusable"
  | some "mount_not_ready" => "mount_not_ready"
  | some "requirements_missing" => "requirements_missing"
  | _ => "pyenv_install_failed"

variable [Lower]

/-- The name of a line of the allowlist. -/
def allowlistName (line : List Char) : Option (List Char) :=
  let stripped := strip line
  if stripped = [] ∨ stripped.head? = some '#' then none
  else
    let name := strip (stripped.takeWhile fun c => !(opChar c || isSpace c))
    if name = [] then none else some (normalizeDistName name)

/-- `load_allowlist`; `none` is a `UnicodeDecodeError`. -/
def loadAllowlist : AllowlistFile → Option (List (List Char))
  | .missing | .unreadable => some (fallbackAllowlist.map normalizeDistName)
  | .bytes b =>
    (readText b).map fun text =>
      let names := (splitlines text).filterMap allowlistName
      if names = [] then fallbackAllowlist.map normalizeDistName else names

def readAction (raw : Option (List Char)) : Option PipAction :=
  let action := (raw.map fun text => Lower.lower (strip text)).getD []
  if action = ['a', 'd', 'd'] then some .add
  else if action = ['r', 'e', 'm', 'o', 'v', 'e'] then some .remove
  else none

omit [Lower] in
/-- The hard walls: required packages first, then the allowlist. -/
def wall (action : PipAction) (allowlist : List (List Char)) :
    List (List Char × List Char) → Except String Unit
  | [] => .ok ()
  | (name, _) :: rest =>
    if action = .remove ∧ name ∈ requiredCurated then .error "missing_required_package"
    else if name ∉ allowlist then .error "package_not_allowlisted"
    else wall action allowlist rest

/-- The checks before the requirements file is looked at. -/
def checkRequest (env : PipEnv) (args : PipArgs) : Except PipStop PipRequest :=
  match validatePackagesArg args.packages with
  | .error reason => .error (.refused reason)
  | .ok tokens =>
    match readAction args.action with
    | none => .error (.refused "invalid_action")
    | some action =>
      if env.isolation = false then .error (.refused "isolation_required")
      else if env.networkNone then .error (.refused "network_policy_blocks_pip")
      else if args.timeoutValid = false then .error (.refused "invalid_timeout")
      else
        match loadAllowlist env.allowlist with
        | none => .error .raised
        | some allowlist =>
          match tokens.mapM fun token => token.bind parseRequirementLine with
          | none => .error (.refused "invalid_package_spec")
          | some parsed =>
            match wall action allowlist parsed with
            | .error reason => .error (.refused reason)
            | .ok () => .ok ⟨action, parsed⟩

def newEntries (request : PipRequest) (original : List Char) : List Entry :=
  match request.action with
  | .add => mergeAdd (parseCuratedEntries original) request.parsed
  | .remove => applyRemove (parseCuratedEntries original) (request.parsed.map Prod.fst)

/-- `_required_present`. -/
def requiredPresent (entries : List Entry) : List (List Char) :=
  requiredCurated.filter fun name => name ∉ entries.filterMap Prod.fst

/-- The text to be written. -/
def planText (request : PipRequest) (original : List Char) : Except PipStop (List Char) :=
  let entries := newEntries request original
  if requiredPresent entries ≠ [] then .error (.refused "missing_required_package")
  else if maxRequirementsBytes < (encodeUtf8 (entriesToText entries)).size then
    .error (.refused "requirements_too_large")
  else .ok (entriesToText entries)

/-- The text that was read and the text to be written. -/
def planUpdate (env : PipEnv) (request : PipRequest) (file : Option ByteArray) :
    Except PipStop (List Char × List Char) :=
  match file with
  | none => .error (.refused "requirements_missing")
  | some bytes =>
    if env.readable = false then .error (.refused "requirements_unreadable")
    else
      match readText bytes with
      | none => .error .raised
      | some original => (planText request original).map fun text => (original, text)

omit [Lower] in
/-- `_restore_requirements` and the refusal behind it. -/
def restoreRequirements (env : PipEnv) (original : List Char) (reason : String) : PipRun :=
  match env.restore with
  | .done => ⟨.refused reason true, some (encodeUtf8 original), some true⟩
  | .failed left => ⟨.refused reason false, left, some false⟩

omit [Lower] in
/-- The write, the install and the restore when it fails. -/
def applyUpdate (env : PipEnv) (original text : List Char) (file : Option ByteArray) : PipRun :=
  if text = original then ⟨.ok, file, none⟩
  else
    match env.write with
    | .failed left => ⟨.refused "requirements_write_failed" false, left, none⟩
    | .done =>
      match env.install with
      | .returned ok ready reason =>
        if ok && ready then ⟨.ok, some (encodeUtf8 text), none⟩
        else restoreRequirements env original (mapInstallErrorReason reason)
      | .raised => restoreRequirements env original "unexpected_error"

/-- `sandbox_pip_update`. -/
def sandboxPipUpdate (env : PipEnv) (args : PipArgs) (file : Option ByteArray) : PipRun :=
  match checkRequest env args with
  | .error stop => ⟨stop.result, file, none⟩
  | .ok request =>
    match planUpdate env request file with
    | .error stop => ⟨stop.result, file, none⟩
    | .ok (original, text) => applyUpdate env original text file

end Call

section Spec

variable [Lower]

/-- What a package asks for. -/
def PackageArg.requirement : PackageArg → Option (List Char × List Char)
  | .text raw => parseRequirementLine raw
  | .other | .surrogates => none

def PipArgs.requirements (args : PipArgs) : List (List Char × List Char) :=
  (args.packages.getD []).filterMap PackageArg.requirement

/-- What an ok call did to the text of the file. -/
def OkUpdate (env : PipEnv) (args : PipArgs) (before after : List Char) : Prop :=
  (∀ name ∈ requiredCurated, requirementLines name after ≠ []) ∧
    (readAction args.action = some .add →
      (∀ requirement ∈ args.requirements,
        ∃ allowlist, loadAllowlist env.allowlist = some allowlist ∧ requirement.1 ∈ allowlist) ∧
      AddExact args.requirements before after) ∧
    (readAction args.action = some .remove →
      ∀ requirement ∈ args.requirements, requirementLines requirement.1 after = [])

/-- Updates are allowlisted and all or nothing. -/
def UpdateHolds (env : PipEnv) (args : PipArgs) (file : Option ByteArray) (run : PipRun) : Prop :=
  match run.result with
  | .ok => ∃ before after, file.bind readText = some before ∧ run.file.bind readText = some after ∧
      OkUpdate env args before after
  | .refused _ hostReverted => run.file = file ∨ run.restored = some false ∧ hostReverted = false
  | .raised => run.file = file

/-- A failed write leaves the file, and a file that a failed install has restored has no carriage
return. -/
def FailsWhole (env : PipEnv) (file : Option ByteArray) : Prop :=
  (∀ left, env.write = .failed left → left = file) ∧
    (env.write = .done → env.install.succeeds = false → env.restore = .done →
      ∀ bytes cs, file = some bytes → decodeUtf8 bytes = some cs → '\r' ∉ cs)

/-- A call that gets past the checks fails whole or, when it adds, has even lines. -/
def UpdateExact (env : PipEnv) (args : PipArgs) (file : Option ByteArray) : Prop :=
  ∀ request original text, checkRequest env args = .ok request →
    planUpdate env request file = .ok (original, text) →
    (text ≠ original → FailsWhole env file) ∧
      (text = original ∨ env.write = .done ∧ env.install.succeeds = true →
        request.action = .add →
          OneLineEach args.requirements original ∧ KeptLinesEven args.requirements original)

end Spec

section Checks

variable [Lower] {env : PipEnv} {args : PipArgs} {request : PipRequest}

theorem parsed_of_tokens {raw : List PackageArg} {tokens : List (Option (List Char))}
    {parsed : List (List Char × List Char)} (htokens : raw.mapM packageToken = some tokens)
    (hparsed : (tokens.mapM fun token => token.bind parseRequirementLine) = some parsed) :
    parsed = raw.filterMap PackageArg.requirement := by
  induction raw generalizing tokens parsed with
  | nil =>
    obtain rfl := Option.some.inj htokens
    exact (Option.some.inj hparsed).symm
  | cons arg raw ih =>
    rw [List.mapM_cons] at htokens
    obtain ⟨token, htoken, hrest⟩ := Option.bind_eq_some_iff.mp htokens
    obtain ⟨tokens', htokens', hcons⟩ := Option.bind_eq_some_iff.mp hrest
    obtain rfl := Option.some.inj hcons
    rw [List.mapM_cons] at hparsed
    obtain ⟨addition, haddition, hrest'⟩ := Option.bind_eq_some_iff.mp hparsed
    obtain ⟨parsed', hparsed', hcons'⟩ := Option.bind_eq_some_iff.mp hrest'
    obtain rfl := Option.some.inj hcons'
    have hrequirement : arg.requirement = some addition := by
      cases arg with
      | other => cases htoken
      | surrogates =>
        obtain rfl := Option.some.inj htoken
        cases haddition
      | text text =>
        rw [packageToken] at htoken
        split_ifs at htoken
        obtain rfl := Option.some.inj htoken
        rw [PackageArg.requirement, ← parse_strip]
        exact haddition
    rw [List.filterMap_cons_some hrequirement, ← ih htokens' hparsed']

omit [Lower] in
theorem allowed_of_wall {action : PipAction} {allowlist : List (List Char)}
    {parsed : List (List Char × List Char)} (h : wall action allowlist parsed = .ok ()) :
    ∀ requirement ∈ parsed, requirement.1 ∈ allowlist := by
  induction parsed with
  | nil => exact fun requirement hmem => absurd hmem List.not_mem_nil
  | cons requirement rest ih =>
    rw [wall] at h
    split_ifs at h with hrequired hallowed
    exact List.forall_mem_cons.mpr ⟨hallowed, ih h⟩

/-- What the checks let through. -/
theorem checkRequest_ok (h : checkRequest env args = .ok request) :
    readAction args.action = some request.action ∧ request.parsed = args.requirements ∧
      ∃ allowlist, loadAllowlist env.allowlist = some allowlist ∧
        ∀ requirement ∈ args.requirements, requirement.1 ∈ allowlist := by
  unfold checkRequest at h
  cases htokens : validatePackagesArg args.packages with
  | error reason => rw [htokens] at h; cases h
  | ok tokens =>
  rw [htokens] at h
  dsimp only at h
  cases haction : readAction args.action with
  | none => rw [haction] at h; cases h
  | some action =>
  rw [haction] at h
  dsimp only at h
  split_ifs at h
  cases hallowlist : loadAllowlist env.allowlist with
  | none => rw [hallowlist] at h; cases h
  | some allowlist =>
  rw [hallowlist] at h
  dsimp only at h
  cases hparsed : tokens.mapM fun token => token.bind parseRequirementLine with
  | none => rw [hparsed] at h; cases h
  | some parsed =>
  rw [hparsed] at h
  dsimp only at h
  cases hwall : wall action allowlist parsed with
  | error reason => rw [hwall] at h; cases h
  | ok _ =>
  rw [hwall] at h
  obtain rfl := Except.ok.inj h
  have hsame : parsed = args.requirements := by
    rw [PipArgs.requirements]
    cases hraw : args.packages with
    | none => rw [hraw] at htokens; cases htokens
    | some raw =>
      rw [hraw, validatePackagesArg] at htokens
      split_ifs at htokens
      cases hmap : raw.mapM packageToken with
      | none => rw [hmap] at htokens; cases htokens
      | some tokens' =>
        rw [hmap] at htokens
        obtain rfl := Except.ok.inj htokens
        exact parsed_of_tokens hmap hparsed
  exact ⟨rfl, hsame, allowlist, rfl, hsame ▸ allowed_of_wall hwall⟩

theorem stored_requirements (args : PipArgs) : Stored args.requirements := by
  intro addition hmem
  obtain ⟨arg, -, harg⟩ := List.mem_filterMap.mp hmem
  cases arg with
  | other | surrogates => cases harg
  | text text => exact ⟨text, harg⟩

omit [Lower] in
theorem not_mem_readText {bytes : ByteArray} {text : List Char} (h : readText bytes = some text) :
    '\r' ∉ text := by
  obtain ⟨cs, -, rfl⟩ := Option.map_eq_some_iff.mp h
  exact not_mem_universalNewlines cs

omit [Lower] in
theorem readText_encodeUtf8 {text : List Char} (h : '\r' ∉ text) :
    readText (encodeUtf8 text) = some text := by
  rw [readText, show decodeUtf8 (encodeUtf8 text) = some text from decodeUtf8_utf8Encode text,
    Option.map_some, universalNewlines_eq_self text h]

variable {file : Option ByteArray} {original text : List Char}

theorem planText_ok (h : planText request original = .ok text) :
    requiredPresent (newEntries request original) = [] ∧
      text = entriesToText (newEntries request original) := by
  simp only [planText] at h
  split_ifs at h with hrequired hlarge
  exact ⟨not_not.mp hrequired, (Except.ok.inj h).symm⟩

/-- What a plan was made from. -/
theorem planUpdate_ok (h : planUpdate env request file = .ok (original, text)) :
    ∃ bytes, file = some bytes ∧ readText bytes = some original ∧
      requiredPresent (newEntries request original) = [] ∧
      text = entriesToText (newEntries request original) := by
  unfold planUpdate at h
  cases file with
  | none => cases h
  | some bytes =>
    dsimp only at h
    split_ifs at h
    cases hread : readText bytes with
    | none => rw [hread] at h; cases h
    | some text' =>
      rw [hread] at h
      dsimp only at h
      cases hplan : planText request text' with
      | error stop => rw [hplan] at h; cases h
      | ok written =>
        rw [hplan] at h
        obtain ⟨rfl, rfl⟩ := Prod.mk.inj (Except.ok.inj h)
        exact ⟨bytes, rfl, hread, planText_ok hplan⟩

theorem applyRemove_written (names : List (List Char)) (hclean : '\r' ∉ original) :
    ∀ entry ∈ applyRemove (parseCuratedEntries original) names, Written [] entry := by
  intro entry hentry
  have hmem := List.mem_of_mem_filter hentry
  rw [parseCuratedEntries_eq] at hmem
  obtain ⟨line, hline, rfl⟩ := List.mem_map.mp hmem
  obtain ⟨hraw, hline⟩ := raw_of_mem_rawLines hclean line hline
  refine ⟨rfl, ⟨hraw, fun hfalse => ?_⟩, hline⟩
  rw [isOther] at hfalse
  cases hname : nameOf line <;> simp [hname] at hfalse

/-- The entries of a plan are written as they are. -/
theorem newEntries_written (h : Stored request.parsed) (hclean : '\r' ∉ original) :
    ∃ names, ∀ entry ∈ newEntries request original, Written names entry := by
  unfold newEntries
  cases request.action with
  | add => exact ⟨_, mergeAdd_written h hclean⟩
  | remove => exact ⟨_, applyRemove_written _ hclean⟩

theorem requirementLines_written {names : List (List Char)} {entries : List Entry}
    (h : ∀ entry ∈ entries, Written names entry) (name : List Char) :
    requirementLines name (entriesToText entries) = [] ↔ some name ∉ entries.map Prod.fst := by
  rw [requirementLines_entriesToText fun entry hentry => (h entry hentry).settled.1,
    List.map_eq_nil_iff, filter_written h, List.map_eq_nil_iff, List.filter_eq_nil_iff]
  constructor
  · intro hnone hmem
    obtain ⟨entry, hentry, hfst⟩ := List.mem_map.mp hmem
    exact hnone entry hentry (decide_eq_true hfst)
  · intro hnone entry hentry hfst
    exact hnone (List.mem_map.mpr ⟨entry, hentry, of_decide_eq_true hfst⟩)

/-- Every required name has a line in the text of a plan. -/
theorem required_of_plan {names : List (List Char)} {entries : List Entry}
    (h : ∀ entry ∈ entries, Written names entry) (hrequired : requiredPresent entries = []) :
    ∀ name ∈ requiredCurated, requirementLines name (entriesToText entries) ≠ [] := by
  intro name hname hnil
  rw [requirementLines_written h] at hnil
  have hpresent := List.filter_eq_nil_iff.mp hrequired name hname
  rw [decide_eq_true_eq, not_not, List.mem_filterMap] at hpresent
  obtain ⟨entry, hentry, hfst⟩ := hpresent
  exact hnil (List.mem_map.mpr ⟨entry, hentry, hfst⟩)

/-- No line of a removed name is left. -/
theorem removed_of_plan (names : List (List Char)) (hclean : '\r' ∉ original) :
    ∀ name ∈ names, requirementLines name
      (entriesToText (applyRemove (parseCuratedEntries original) names)) = [] := by
  intro name hname
  rw [requirementLines_written (applyRemove_written names hclean)]
  intro hmem
  obtain ⟨entry, hentry, hfst⟩ := List.mem_map.mp hmem
  have hkept := List.of_mem_filter hentry
  rw [hfst, Option.all_some, decide_eq_true_eq] at hkept
  exact hkept hname

end Checks

section Holds

variable [Lower] {env : PipEnv} {args : PipArgs} {request : PipRequest}
  {file : Option ByteArray} {original text : List Char}

/-- An ok call is right exactly when its lines are even. -/
theorem okUpdate_iff (hcheck : checkRequest env args = .ok request)
    (hplan : planUpdate env request file = .ok (original, text)) :
    OkUpdate env args original text ↔ (request.action = .add →
      OneLineEach args.requirements original ∧ KeptLinesEven args.requirements original) := by
  obtain ⟨haction, hparsed, allowlist, hallowlist, hallowed⟩ := checkRequest_ok hcheck
  obtain ⟨bytes, -, hread, hrequired, rfl⟩ := planUpdate_ok hplan
  have hclean := not_mem_readText hread
  have hstored : Stored request.parsed := hparsed ▸ stored_requirements args
  obtain ⟨names, hwritten⟩ := newEntries_written hstored hclean
  rw [OkUpdate, haction]
  have hpresent := required_of_plan hwritten hrequired
  constructor
  · rintro ⟨-, hadd, -⟩ hrequest
    have hexact := (hadd (congrArg some hrequest)).2
    rw [newEntries, hrequest] at hexact
    dsimp only at hexact
    rw [hparsed] at hexact
    exact (addExact_iff (stored_requirements args) hclean).mp hexact
  · intro heven
    refine ⟨hpresent, ?_, ?_⟩
    · intro hrequest
      have hadd := Option.some.inj hrequest
      refine ⟨fun requirement hmem => ⟨allowlist, hallowlist, hallowed requirement hmem⟩, ?_⟩
      rw [newEntries, hadd]
      dsimp only
      rw [hparsed]
      exact (addExact_iff (stored_requirements args) hclean).mpr (heven hadd)
    · intro hrequest requirement hmem
      rw [newEntries, Option.some.inj hrequest]
      dsimp only
      apply removed_of_plan _ hclean
      rw [hparsed]
      exact List.mem_map.mpr ⟨requirement, hmem, rfl⟩

omit [Lower] in
/-- The text that was read is the file exactly when the file has no carriage return. -/
theorem restored_iff {bytes : ByteArray} (hread : readText bytes = some original) :
    some (encodeUtf8 original) = some bytes ↔
      ∀ b cs, some bytes = some b → decodeUtf8 b = some cs → '\r' ∉ cs := by
  obtain ⟨cs, hdecode, rfl⟩ := Option.map_eq_some_iff.mp hread
  have hbytes := utf8Encode_of_decodeUtf8 bytes cs hdecode
  constructor
  · intro hsame b cs' hb hcs'
    obtain rfl := Option.some.inj hb
    obtain rfl := Option.some.inj (hdecode.symm.trans hcs')
    have hchars := utf8Encode_injective _ _ ((Option.some.inj hsame).trans hbytes)
    exact (universalNewlines_eq_iff cs).mp hchars
  · intro hclean
    rw [universalNewlines_eq_self cs (hclean bytes cs rfl hdecode), hbytes]
    rfl

theorem restoreRequirements_holds {bytes : ByteArray} (hread : readText bytes = some original)
    (reason : String) :
    UpdateHolds env args (some bytes) (restoreRequirements env original reason) ↔
      (env.restore = .done →
        ∀ b cs, some bytes = some b → decodeUtf8 b = some cs → '\r' ∉ cs) := by
  rw [restoreRequirements, UpdateHolds]
  cases env.restore with
  | done =>
    rw [← restored_iff hread]
    simp
  | failed left => simp

/-- When a call that gets past the checks is right. -/
theorem applyUpdate_holds (hcheck : checkRequest env args = .ok request)
    (hplan : planUpdate env request file = .ok (original, text)) :
    UpdateHolds env args file (applyUpdate env original text file) ↔
      (text ≠ original → FailsWhole env file) ∧
      (text = original ∨ env.write = .done ∧ env.install.succeeds = true →
        request.action = .add →
          OneLineEach args.requirements original ∧ KeptLinesEven args.requirements original) := by
  rw [← okUpdate_iff hcheck hplan]
  obtain ⟨haction, hparsed, -⟩ := checkRequest_ok hcheck
  obtain ⟨bytes, rfl, hread, hrequired, htext⟩ := planUpdate_ok hplan
  have hclean : '\r' ∉ text := by
    have hstored : Stored request.parsed := hparsed ▸ stored_requirements args
    obtain ⟨names, hwritten⟩ := newEntries_written hstored (not_mem_readText hread)
    rw [htext]
    exact not_mem_entriesToText fun entry hentry =>
      ⟨(hwritten entry hentry).settled.1, (hwritten entry hentry).clean⟩
  have hok {after : Option ByteArray} (hafter : after.bind readText = some text) :
      UpdateHolds env args (some bytes) ⟨.ok, after, none⟩ ↔ OkUpdate env args original text := by
    constructor
    · rintro ⟨before, after', hbefore, hafter', hupdate⟩
      obtain rfl := Option.some.inj (hread.symm.trans hbefore)
      obtain rfl := Option.some.inj (hafter.symm.trans hafter')
      exact hupdate
    · exact fun hupdate => ⟨original, text, hread, hafter, hupdate⟩
  rw [applyUpdate]
  by_cases hsame : text = original
  · have hafter : (some bytes).bind readText = some text := hread.trans (congrArg some hsame.symm)
    rw [if_pos hsame, hok hafter]
    exact ⟨fun hupdate => ⟨fun hne => absurd hsame hne, fun _ => hupdate⟩,
      fun hcond => hcond.2 (.inl hsame)⟩
  rw [if_neg hsame]
  cases hwrite : env.write with
  | failed left =>
    simp [UpdateHolds, FailsWhole, hwrite, hsame]
  | done =>
    cases hinstall : env.install with
    | raised =>
      dsimp only
      rw [restoreRequirements_holds hread]
      simp [FailsWhole, hwrite, hinstall, InstallOutcome.succeeds, hsame]
    | returned ok ready reason =>
      dsimp only
      cases hboth : ok && ready with
      | true =>
        have hafter : (some (encodeUtf8 text)).bind readText = some text :=
          readText_encodeUtf8 hclean
        rw [if_pos rfl, hok hafter]
        simp [FailsWhole, hwrite, hinstall, InstallOutcome.succeeds, hsame, hboth]
      | false =>
        rw [if_neg Bool.false_ne_true, restoreRequirements_holds hread]
        simp [FailsWhole, hwrite, hinstall, InstallOutcome.succeeds, hsame, hboth]

/-- `sandbox_pip_update` is allowlisted and all or nothing exactly when it fails whole and leaves
even lines. -/
theorem pip_update_iff (env : PipEnv) (args : PipArgs) (file : Option ByteArray) :
    UpdateHolds env args file (sandboxPipUpdate env args file) ↔ UpdateExact env args file := by
  have hstopped (stop : PipStop) : UpdateHolds env args file ⟨stop.result, file, none⟩ := by
    cases stop with
    | raised => rfl
    | refused reason => exact .inl rfl
  rw [sandboxPipUpdate, UpdateExact]
  cases hcheck : checkRequest env args with
  | error stop => exact ⟨fun _ request _ _ h => (nomatch h), fun _ => hstopped stop⟩
  | ok request =>
    dsimp only
    cases hplan : planUpdate env request file with
    | error stop =>
      refine ⟨fun _ request' _ _ h hplan' => ?_, fun _ => hstopped stop⟩
      obtain rfl := Except.ok.inj h
      rw [hplan] at hplan'
      cases hplan'
    | ok plan =>
      obtain ⟨original, text⟩ := plan
      dsimp only
      rw [applyUpdate_holds hcheck hplan]
      constructor
      · intro hcond request' original' text' hrequest hplan'
        obtain rfl := Except.ok.inj hrequest
        obtain ⟨rfl, rfl⟩ := Prod.mk.inj (Except.ok.inj (hplan.symm.trans hplan'))
        exact hcond
      · exact fun hcond => hcond request original text rfl hplan

end Holds

section Sample

abbrev simpleLower : Lower := ⟨fun text => text.map Char.toLower⟩

/-- The first write stops when the file is empty. -/
def fullDisk : PipEnv where
  isolation := true
  networkNone := false
  allowlist := .missing
  readable := true
  write := .failed (some .empty)
  install := .raised
  restore := .done

def addRich : PipArgs :=
  ⟨some ['a', 'd', 'd'], some [.text ['r', 'i', 'c', 'h']], true⟩

def pytestLine : List Char := ['p', 'y', 't', 'e', 's', 't', '\n']

/-- A file that the first write has cut is not restored. -/
theorem cut_file_is_left : ¬∀ [Lower] (env : PipEnv) (args : PipArgs)
    (file : Option ByteArray), UpdateHolds env args file (sandboxPipUpdate env args file) := by
  intro hall
  let _ : Lower := simpleLower
  have hread : readText (encodeUtf8 pytestLine) = some pytestLine :=
    readText_encodeUtf8 (by decide)
  have hcheck : checkRequest fullDisk addRich =
      .ok ⟨.add, [(['r', 'i', 'c', 'h'], ['r', 'i', 'c', 'h'])]⟩ := by
    rfl
  have htext : planText ⟨.add, [(['r', 'i', 'c', 'h'], ['r', 'i', 'c', 'h'])]⟩ pytestLine =
      .ok (pytestLine ++ ['r', 'i', 'c', 'h', '\n']) := by
    rfl
  have hplan : planUpdate fullDisk ⟨.add, [(['r', 'i', 'c', 'h'], ['r', 'i', 'c', 'h'])]⟩
      (some (encodeUtf8 pytestLine)) =
        .ok (pytestLine, pytestLine ++ ['r', 'i', 'c', 'h', '\n']) := by
    unfold planUpdate
    dsimp only
    rw [if_neg (by decide), hread]
    dsimp only
    rw [htext]
    rfl
  have hholds := @hall simpleLower fullDisk addRich (some (encodeUtf8 pytestLine))
  rw [sandboxPipUpdate, hcheck] at hholds
  dsimp only at hholds
  rw [hplan] at hholds
  dsimp only at hholds
  rw [applyUpdate, if_neg (by decide)] at hholds
  obtain hsame | ⟨hrestored, -⟩ := hholds
  · have hchars := utf8Encode_injective [] pytestLine (Option.some.inj hsame)
    cases hchars
  · cases hrestored

end Sample

end Elyra.Tools
