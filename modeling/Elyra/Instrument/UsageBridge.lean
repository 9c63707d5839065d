import Elyra.Framework.Python
import Elyra.Presence.PoisonFold

namespace Elyra.Instrument

open Json
open Presence (isInfinite)

/-- What the output of a child makes the code raise: the digits limit of integers, the depth limit
of the JSON parser, and `int` of an infinite float. -/
inductive OutputErr where
  | valueError | recursionError | overflowError
  deriving DecidableEq

abbrev Members := List (String × Json)

/-- The counts of a run. -/
structure TokenUsage where
  promptTokens : Nat
  completionTokens : Nat
  totalTokens : Nat
  reasoningTokens : Nat
  cachedTokens : Nat
  deriving DecidableEq

def TokenUsage.billableTokens (u : TokenUsage) : Nat :=
  if 0 < u.totalTokens then u.totalTokens else u.promptTokens + u.completionTokens

/-- `json.dumps` writes integers of at most so many digits. -/
def intDigitsLimit : Nat := 4300

def printable (n : Nat) : Bool := n < 10 ^ intDigitsLimit

/-- The counts that `result.json` holds can be written. -/
def TokenUsage.writable (u : TokenUsage) : Bool :=
  [u.promptTokens, u.completionTokens, u.totalTokens, u.reasoningTokens, u.cachedTokens,
    u.billableTokens].all printable

section Counts

variable [PyCoerce]

/-- `int(v)` overflows. -/
def overflows : Json → Bool
  | .float x => isInfinite x
  | _ => false

/-- `max(0, int(v))` of a number, and 0 of what is none. -/
def count : Json → Nat
  | .int n => n.toNat
  | .float .nan => 0
  | .float x => ((pyInt (.float x)).getD 0).toNat
  | _ => 0

/-- `_as_nonneg_int`: it catches `TypeError` and `ValueError`. -/
def asNonnegInt (v : Json) : Except OutputErr Nat :=
  if overflows v then .error .overflowError else .ok (count v)

/-- `raw.get(key, 0)`. -/
def field (raw : Members) (key : String) : Json := (lookup raw key).getD (.int 0)

/-- `raw[key][inner]` where both are there. -/
def detail (raw : Members) (key inner : String) : Option Json :=
  match lookup raw key with
  | some (.obj kvs) => lookup kvs inner
  | _ => none

def hasAny (raw : Members) (keys : List String) : Bool := keys.any fun k => (lookup raw k).isSome

def openaiKeys : List String := ["prompt_tokens", "completion_tokens", "total_tokens"]

def messagesKeys : List String :=
  ["input_tokens", "output_tokens", "cache_read_input_tokens", "cache_creation_input_tokens"]

/-- `parse_token_usage`. -/
def parseTokenUsage (raw : Members) : Except OutputErr (Option TokenUsage) :=
  if !hasAny raw openaiKeys then .ok none
  else do
    let prompt ← asNonnegInt (field raw "prompt_tokens")
    let completion ← asNonnegInt (field raw "completion_tokens")
    let total ← asNonnegInt (field raw "total_tokens")
    let reasoning ← asNonnegInt ((detail raw "completion_tokens_details" "reasoning_tokens").getD
      (field raw "reasoning_tokens"))
    let cached ← asNonnegInt ((detail raw "prompt_tokens_details" "cached_tokens").getD
      (field raw "cached_tokens"))
    return some ⟨prompt, completion, total, reasoning, cached⟩

/-- A value of a number type, `NaN` among them. -/
def isNumber : Json → Bool
  | .int _ | .float _ => true
  | _ => false

def numericKeys : List String :=
  ["input_tokens", "output_tokens", "total_tokens", "prompt_tokens", "completion_tokens",
    "cache_read_input_tokens", "cache_creation_input_tokens"]

def hasNumeric (raw : Members) : Bool := numericKeys.any fun k => (lookup raw k).any isNumber

/-- The larger of a count and a detail of it. -/
def orDetail (flat : Nat) (v : Option Json) : Except OutputErr Nat :=
  match v with
  | none => .ok flat
  | some v => do return max flat (← asNonnegInt v)

/-- The cached tokens where the cache buckets name none. -/
def flatCached (raw : Members) : Except OutputErr Nat := do
  let flat ← asNonnegInt (field raw "cached_tokens")
  orDetail flat (detail raw "prompt_tokens_details" "cached_tokens")

/-- The cached tokens, from the buckets when they name any. -/
def cachedOf (raw : Members) (buckets : Nat) : Except OutputErr Nat :=
  if buckets = 0 then flatCached raw else .ok buckets

/-- `messages_usage_to_token_usage`. -/
def messagesUsageToTokenUsage (raw : Members) : Except OutputErr (Option TokenUsage) := do
  let openaiish ← parseTokenUsage raw
  if !hasAny raw messagesKeys then return openaiish
  let prompt ← asNonnegInt ((lookup raw "input_tokens").getD (field raw "prompt_tokens"))
  let completion ← asNonnegInt ((lookup raw "output_tokens").getD (field raw "completion_tokens"))
  let total ← asNonnegInt (field raw "total_tokens")
  let cacheRead ← asNonnegInt (field raw "cache_read_input_tokens")
  let cacheCreate ← asNonnegInt (field raw "cache_creation_input_tokens")
  let cached ← cachedOf raw (cacheRead + cacheCreate)
  let flat ← asNonnegInt (field raw "reasoning_tokens")
  let reasoning ← orDetail flat (detail raw "completion_tokens_details" "reasoning_tokens")
  let zero := prompt = 0 && completion = 0 && total = 0 && cached = 0 && reasoning = 0
  if zero && !hasNumeric raw then return none
  return some ⟨prompt, completion, total, reasoning, cached⟩

def usageKeys : List String :=
  ["input_tokens", "output_tokens", "prompt_tokens", "completion_tokens", "total_tokens",
    "cache_read_input_tokens", "cache_creation_input_tokens", "cached_tokens", "reasoning_tokens"]

/-- `extract_usage_dict`. -/
def extractUsageDict (payload : Members) : Option Members :=
  match lookup payload "usage" with
  | some (.obj usage) => some usage
  | _ => if hasAny payload usageKeys then some payload else none

/-- `adapt_headless_usage`. -/
def adaptHeadlessUsage (headless : Option Members) : Except OutputErr (Option TokenUsage) :=
  match headless.bind extractUsageDict with
  | none => .ok none
  | some raw => messagesUsageToTokenUsage raw

end Counts

section Conversions

variable {α β : Type}

/-- A computation that converts the values `reads` on its way to `a`, and raises when one of them
overflows. -/
def Converts (reads : List Json) (m : Except OutputErr α) (a : α) : Prop :=
  m = if reads.any overflows then .error .overflowError else .ok a

theorem converts_pure (a : α) : Converts [] (.ok a) a := rfl

theorem converts_bind {reads more : List Json} {m : Except OutputErr α} {a : α}
    {f : α → Except OutputErr β} {b : β} (hm : Converts reads m a) (hf : Converts more (f a) b) :
    Converts (reads ++ more) (m >>= f) b := by
  rw [Converts] at hm hf ⊢
  rw [hm, List.any_append]
  cases reads.any overflows with
  | true => rfl
  | false =>
    rw [if_neg (by decide), Bool.false_or]
    exact hf

theorem converts_ite (c : Prop) [Decidable c] {reads more : List Json} {m n : Except OutputErr α}
    {a b : α} (hm : Converts reads m a) (hn : Converts more n b) :
    Converts (if c then reads else more) (if c then m else n) (if c then a else b) := by
  by_cases h : c
  · rw [if_pos h, if_pos h, if_pos h]
    exact hm
  · rw [if_neg h, if_neg h, if_neg h]
    exact hn

section Numbers

variable [PyCoerce]

theorem converts_int (v : Json) : Converts [v] (asNonnegInt v) (count v) := by
  rw [Converts, asNonnegInt, List.any_cons, List.any_nil, Bool.or_false]

def orDetailCount (flat : Nat) (v : Option Json) : Nat := v.elim flat fun v => max flat (count v)

theorem converts_orDetail (flat : Nat) (v : Option Json) :
    Converts v.toList (orDetail flat v) (orDetailCount flat v) := by
  cases v with
  | none => exact converts_pure flat
  | some v => exact converts_bind (converts_int v) (converts_pure _)

end Numbers

end Conversions

section Usage

variable [PyCoerce] (raw : Members)

def openaiReasoning : Json :=
  (detail raw "completion_tokens_details" "reasoning_tokens").getD (field raw "reasoning_tokens")

def openaiCached : Json :=
  (detail raw "prompt_tokens_details" "cached_tokens").getD (field raw "cached_tokens")

/-- The values `parse_token_usage` converts. -/
def openaiReads : List Json :=
  if (!hasAny raw openaiKeys) = true then []
  else
    [field raw "prompt_tokens", field raw "completion_tokens", field raw "total_tokens",
      openaiReasoning raw, openaiCached raw]

def openaiUsage : Option TokenUsage :=
  if (!hasAny raw openaiKeys) = true then none
  else
    some ⟨count (field raw "prompt_tokens"), count (field raw "completion_tokens"),
      count (field raw "total_tokens"), count (openaiReasoning raw), count (openaiCached raw)⟩

theorem converts_parseTokenUsage :
    Converts (openaiReads raw) (parseTokenUsage raw) (openaiUsage raw) := by
  apply converts_ite _ (converts_pure none)
  refine converts_bind (converts_int _) ?_
  refine converts_bind (converts_int _) ?_
  refine converts_bind (converts_int _) ?_
  refine converts_bind (converts_int _) ?_
  exact converts_bind (converts_int _) (converts_pure _)

def inputTokens : Json := (lookup raw "input_tokens").getD (field raw "prompt_tokens")

def outputTokens : Json := (lookup raw "output_tokens").getD (field raw "completion_tokens")

/-- The cache buckets. -/
def cacheBuckets : Nat :=
  count (field raw "cache_read_input_tokens") + count (field raw "cache_creation_input_tokens")

def cachedDetail : Option Json := detail raw "prompt_tokens_details" "cached_tokens"

def reasoningDetail : Option Json := detail raw "completion_tokens_details" "reasoning_tokens"

def cachedCount : Nat :=
  if cacheBuckets raw = 0 then orDetailCount (count (field raw "cached_tokens")) (cachedDetail raw)
  else cacheBuckets raw

/-- The counts of a record with buckets. -/
def bucketUsage : TokenUsage where
  promptTokens := count (inputTokens raw)
  completionTokens := count (outputTokens raw)
  totalTokens := count (field raw "total_tokens")
  reasoningTokens := orDetailCount (count (field raw "reasoning_tokens")) (reasoningDetail raw)
  cachedTokens := cachedCount raw

def TokenUsage.isZero (u : TokenUsage) : Bool :=
  u.promptTokens = 0 && u.completionTokens = 0 && u.totalTokens = 0 && u.cachedTokens = 0 &&
    u.reasoningTokens = 0

def flatReads : List Json :=
  if cacheBuckets raw = 0 then field raw "cached_tokens" :: (cachedDetail raw).toList else []

/-- The values the bridge converts of a record with buckets. -/
def bucketReads : List Json :=
  inputTokens raw :: outputTokens raw :: field raw "total_tokens" ::
    field raw "cache_read_input_tokens" :: field raw "cache_creation_input_tokens" ::
      (flatReads raw ++ field raw "reasoning_tokens" :: (reasoningDetail raw).toList)

/-- The values the bridge converts. -/
def usageReads : List Json :=
  openaiReads raw ++ if (!hasAny raw messagesKeys) = true then [] else bucketReads raw

/-- The counts the bridge takes from a record, when none overflows. -/
def reportedUsage : Option TokenUsage :=
  if (!hasAny raw messagesKeys) = true then openaiUsage raw
  else if ((bucketUsage raw).isZero && !hasNumeric raw) = true then none
  else some (bucketUsage raw)

theorem converts_flatCached : Converts (field raw "cached_tokens" :: (cachedDetail raw).toList)
    (flatCached raw) (orDetailCount (count (field raw "cached_tokens")) (cachedDetail raw)) :=
  converts_bind (converts_int _) (converts_orDetail _ _)

theorem converts_cachedOf :
    Converts (flatReads raw) (cachedOf raw (cacheBuckets raw)) (cachedCount raw) :=
  converts_ite _ (converts_flatCached raw) (converts_pure _)

theorem converts_messagesUsage :
    Converts (usageReads raw) (messagesUsageToTokenUsage raw) (reportedUsage raw) := by
  refine converts_bind (converts_parseTokenUsage raw) ?_
  refine converts_ite _ (converts_pure (openaiUsage raw)) ?_
  refine converts_bind (converts_int _) ?_
  refine converts_bind (converts_int _) ?_
  refine converts_bind (converts_int _) ?_
  refine converts_bind (converts_int _) ?_
  refine converts_bind (converts_int _) ?_
  refine converts_bind (converts_cachedOf raw) ?_
  refine converts_bind (converts_int _) ?_
  show Converts (reasoningDetail raw).toList _ _
  rw [← List.append_nil (reasoningDetail raw).toList]
  refine converts_bind (converts_orDetail _ (reasoningDetail raw)) ?_
  have hlast := converts_ite (α := Option TokenUsage)
    (((bucketUsage raw).isZero && !hasNumeric raw) = true) (converts_pure none)
    (converts_pure (some (bucketUsage raw)))
  rw [ite_self] at hlast
  exact hlast

end Usage

section Known

variable (raw : Members)

/-- The usage values of a record. -/
def usageValues : List Json :=
  usageKeys.filterMap (lookup raw) ++ ((cachedDetail raw).toList ++ (reasoningDetail raw).toList)

def isKnown : Json → Bool
  | .int _ => true
  | .float x => x ≠ .nan
  | _ => false

/-- Some usage value of the record is a number. -/
def Known : Prop := ∃ v ∈ usageValues raw, isKnown v = true

/-- The bridge takes no counts from the record when no value of it is a number. -/
def Unrecorded : Prop :=
  if hasAny raw messagesKeys = true then ∀ k ∈ numericKeys, lookup raw k ≠ some (.float .nan)
  else hasAny raw openaiKeys = false

variable {raw}

theorem count_unknown [PyCoerce] {v : Json} (hv : isKnown v = false) : count v = 0 := by
  cases v with
  | int n => cases hv
  | float x =>
    cases x with
    | nan => rfl
    | decimal | scientific | infinity => simp [isKnown] at hv
  | _ => rfl

theorem unknown_of_mem (h : ¬Known raw) {v : Json} (hv : v ∈ usageValues raw) :
    isKnown v = false := by
  cases hk : isKnown v with
  | false => rfl
  | true => exact absurd ⟨v, hv, hk⟩ h

theorem unknown_lookup (h : ¬Known raw) {k : String} (hk : k ∈ usageKeys) {v : Json}
    (hv : lookup raw k = some v) : isKnown v = false :=
  unknown_of_mem h (List.mem_append_left _ (List.mem_filterMap.mpr ⟨k, hk, hv⟩))

variable [PyCoerce]

theorem count_field (h : ¬Known raw) {k : String} (hk : k ∈ usageKeys) :
    count (field raw k) = 0 := by
  unfold field
  cases hv : lookup raw k with
  | none => rfl
  | some v => exact count_unknown (unknown_lookup h hk hv)

theorem count_given (h : ¬Known raw) {k k' : String} (hk : k ∈ usageKeys) (hk' : k' ∈ usageKeys) :
    count ((lookup raw k).getD (field raw k')) = 0 := by
  cases hv : lookup raw k with
  | none => exact count_field h hk'
  | some v => exact count_unknown (unknown_lookup h hk hv)

theorem orDetailCount_unknown (h : ¬Known raw) {k : String} (hk : k ∈ usageKeys) {v : Option Json}
    (hv : ∀ x, v = some x → x ∈ usageValues raw) : orDetailCount (count (field raw k)) v = 0 := by
  rw [count_field h hk]
  cases v with
  | none => rfl
  | some x =>
    have hx : count x = 0 := count_unknown (unknown_of_mem h (hv x rfl))
    rw [orDetailCount, Option.elim_some, hx]
    rfl

theorem bucketUsage_unknown (h : ¬Known raw) : (bucketUsage raw).isZero = true := by
  have hcached : cachedCount raw = 0 := by
    have hbuckets : cacheBuckets raw = 0 := by
      rw [cacheBuckets, count_field h (by decide), count_field h (by decide)]
    rw [cachedCount, if_pos hbuckets]
    refine orDetailCount_unknown h (by decide) fun x hx => ?_
    refine List.mem_append_right _ (List.mem_append_left _ ?_)
    rw [hx]
    exact List.mem_singleton_self x
  have hreasoning :
      orDetailCount (count (field raw "reasoning_tokens")) (reasoningDetail raw) = 0 := by
    refine orDetailCount_unknown h (by decide) fun x hx => ?_
    refine List.mem_append_right _ (List.mem_append_right _ ?_)
    rw [hx]
    exact List.mem_singleton_self x
  have hinput : count (inputTokens raw) = 0 := count_given h (by decide) (by decide)
  have houtput : count (outputTokens raw) = 0 := count_given h (by decide) (by decide)
  have htotal : count (field raw "total_tokens") = 0 := count_field h (by decide)
  simp [TokenUsage.isZero, bucketUsage, hinput, houtput, htotal, hcached, hreasoning]

omit [PyCoerce] in
/-- Among unknown values only `NaN` is of a number type. -/
theorem hasNumeric_unknown (h : ¬Known raw) :
    hasNumeric raw = false ↔ ∀ k ∈ numericKeys, lookup raw k ≠ some (.float .nan) := by
  have hsub : numericKeys ⊆ usageKeys := by decide
  rw [hasNumeric, List.any_eq_false]
  refine forall₂_congr fun k hk => ?_
  cases hv : lookup raw k with
  | none => simp
  | some v =>
    have hunknown := unknown_lookup h (hsub hk) hv
    cases v with
    | int n => cases hunknown
    | float x =>
      have hnan : x = .nan := by simpa [isKnown] using hunknown
      simp [isNumber, hnan]
    | _ => simp [isNumber]

theorem reportedUsage_unknown (h : ¬Known raw) : reportedUsage raw = none ↔ Unrecorded raw := by
  unfold reportedUsage Unrecorded
  cases hasAny raw messagesKeys with
  | true =>
    rw [if_neg (by decide), if_pos rfl, bucketUsage_unknown h, ← hasNumeric_unknown h]
    cases hasNumeric raw <;> simp
  | false =>
    rw [Bool.not_false, if_pos rfl, if_neg (by decide), openaiUsage]
    cases hasAny raw openaiKeys <;> simp

end Known

end Elyra.Instrument
