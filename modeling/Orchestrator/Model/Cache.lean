import Orchestrator.Foundation.Lists
import Orchestrator.Foundation.Machine
import Orchestrator.Model.Task

/-!
# The task cache

A cache key is the text of the task's id, its version and the digest of its input, with
`@` and `:` between them, and the cache looks up that text alone. A digest has no colon, so
the text determines it. Ids and versions may have an `@`, so that the text before the
colon can be put together in several ways.
-/

namespace Orchestrator

open Json (Value)

/-- `HEX[usize::from(nibble)]`. -/
def hexDigit (nibble : UInt8) : Char := "0123456789abcdef".toList.getD nibble.toNat '0'

/-- The two digits of a byte. -/
def hexByte (byte : UInt8) : List Char := [hexDigit (byte >>> 4), hexDigit (byte &&& 0x0f)]

/-- `hex_digest`. -/
def hexDigest (bytes : List UInt8) : String := String.ofList (bytes.flatMap hexByte)

/-- `serde_json::to_vec`, with the text of its error, and `Sha256::digest`. -/
structure InputHasher where
  toVec : Value → Except String (List UInt8)
  digest : List UInt8 → List UInt8

/-- A deterministic cache key for a task invocation. -/
structure TaskCacheKey where
  key : CacheKey
  task : TaskId
  taskVersion : String
  deriving DecidableEq, Repr

/-- Derives a key from the task identity and its JSON input. -/
def TaskCacheKey.forInput (hasher : InputHasher) (task : TaskSpec) (input : Value) :
    Except AdapterError TaskCacheKey :=
  match hasher.toVec input with
  | .error text => .error ⟨"cache-key", text⟩
  | .ok bytes =>
    let inputHash := hexDigest (hasher.digest bytes)
    match (Id.new s!"{task.id}@{task.version}:{inputHash}" : Except IdentifierError CacheKey) with
    | .error error => .error ⟨"cache-key", s!"{error.kind} cannot be empty"⟩
    | .ok key => .ok { key, task := task.id, taskVersion := task.version }

/-- Process-local cache implementation for deterministic task outputs. -/
structure InMemoryTaskCache where
  values : BTreeMap CacheKey Value

namespace InMemoryTaskCache

def get (cache : InMemoryTaskCache) (key : TaskCacheKey) : Except AdapterError (Option Value) :=
  .ok cache.values[key.key]?

def put (cache : InMemoryTaskCache) (key : TaskCacheKey) (output : Value) :
    Except AdapterError Unit × InMemoryTaskCache :=
  (.ok (), ⟨cache.values.insert key.key output⟩)

end InMemoryTaskCache

/-- A call of the cache, with the task and the input from which its key is made. -/
inductive CacheCall where
  | get (task : TaskSpec) (input : Value)
  | put (task : TaskSpec) (input output : Value)

def CacheCall.task : CacheCall → TaskSpec
  | .get task _ => task
  | .put task _ _ => task

namespace InMemoryTaskCache

/-- Makes the key of a call and runs it; a put has no value to answer. -/
def step (hasher : InputHasher) (cache : InMemoryTaskCache) :
    CacheCall → Except AdapterError (Option Value) × InMemoryTaskCache
  | .get task input =>
    match TaskCacheKey.forInput hasher task input with
    | .error error => (.error error, cache)
    | .ok key => (cache.get key, cache)
  | .put task input output =>
    match TaskCacheKey.forInput hasher task input with
    | .error error => (.error error, cache)
    | .ok key => ((cache.put key output).1.map fun _ => none, (cache.put key output).2)

end InMemoryTaskCache

/-- The cache, starting empty. -/
def taskCache (hasher : InputHasher) :
    Machine InMemoryTaskCache CacheCall (Except AdapterError (Option Value)) :=
  ⟨⟨∅⟩, InMemoryTaskCache.step hasher⟩

/-! The digits of a digest. -/

theorem hexDigit_inj {m n : UInt8} (hm : m.toNat < 16) (hn : n.toNat < 16)
    (same : hexDigit m = hexDigit n) : m = n := by
  have distinct : ∀ i j : Fin 16, "0123456789abcdef".toList.getD i.val '0' =
      "0123456789abcdef".toList.getD j.val '0' → i = j := by decide
  have index := distinct ⟨m.toNat, hm⟩ ⟨n.toNat, hn⟩ same
  exact UInt8.toNat_inj.mp (Fin.mk.inj index)

theorem toNat_high (byte : UInt8) : (byte >>> 4).toNat = byte.toNat / 16 := by
  rw [UInt8.toNat_shiftRight]
  exact Nat.shiftRight_eq_div_pow _ _

theorem toNat_low (byte : UInt8) : (byte &&& 0x0f).toNat = byte.toNat % 16 := by
  rw [UInt8.toNat_and]
  exact Nat.and_two_pow_sub_one_eq_mod _ 4

theorem hexByte_inj {b c : UInt8} (same : hexByte b = hexByte c) : b = c := by
  have hb := b.toNat_lt
  have hc := c.toNat_lt
  obtain ⟨high, low, -⟩ : hexDigit (b >>> 4) = hexDigit (c >>> 4) ∧
      hexDigit (b &&& 0x0f) = hexDigit (c &&& 0x0f) ∧ True := by
    simpa [hexByte] using same
  have high := congrArg UInt8.toNat
    (hexDigit_inj (by rw [toNat_high]; omega) (by rw [toNat_high]; omega) high)
  have low := congrArg UInt8.toNat
    (hexDigit_inj (by rw [toNat_low]; omega) (by rw [toNat_low]; omega) low)
  rw [toNat_high, toNat_high] at high
  rw [toNat_low, toNat_low] at low
  exact UInt8.toNat_inj.mp (by omega)

theorem hexDigest_inj {bs cs : List UInt8} (same : hexDigest bs = hexDigest cs) : bs = cs := by
  have chars : bs.flatMap hexByte = cs.flatMap hexByte := by
    simpa [hexDigest] using congrArg String.toList same
  clear same
  induction bs generalizing cs with
  | nil =>
      cases cs with
      | nil => rfl
      | cons c cs => simp [hexByte] at chars
  | cons b bs ih =>
      cases cs with
      | nil => simp [hexByte] at chars
      | cons c cs =>
          rw [List.flatMap_cons, List.flatMap_cons] at chars
          obtain ⟨first, rest⟩ := List.append_inj chars rfl
          rw [hexByte_inj first, ih rest]

theorem colon_notMem_hexDigest (bytes : List UInt8) : ':' ∉ (hexDigest bytes).toList := by
  have digit : ∀ nibble : UInt8, ':' ≠ hexDigit nibble := by
    intro nibble
    obtain inside | outside := Nat.lt_or_ge nibble.toNat 16
    · have each : ∀ i : Fin 16, ':' ≠ "0123456789abcdef".toList.getD i.val '0' := by decide
      exact each ⟨nibble.toNat, inside⟩
    · have absent : "0123456789abcdef".toList[nibble.toNat]? = none :=
        List.getElem?_eq_none outside
      rw [hexDigit, List.getD_eq_getElem?_getD, absent]
      decide
  rw [hexDigest, String.toList_ofList, List.mem_flatMap]
  rintro ⟨byte, -, inside⟩
  simp [hexByte, digit] at inside

/-! The texts of the keys. -/

/-- The text before the colon of a key. -/
def TaskSpec.cacheName (task : TaskSpec) : List Char :=
  task.id.value.toList ++ '@' :: task.version.toList

/-- The id of the second task goes on where that of the first one ends, with what stands
before the version of the second task in the version of the first one. -/
def TaskSpec.Shifted (a b : TaskSpec) : Prop :=
  ∃ middle : String, b.id.value = a.id.value ++ "@" ++ middle ∧
    a.version = middle ++ "@" ++ b.version

theorem TaskSpec.Shifted.cacheName {a b : TaskSpec} (shifted : a.Shifted b) :
    a.cacheName = b.cacheName := by
  obtain ⟨middle, id, version⟩ := shifted
  simp [TaskSpec.cacheName, id, version]

theorem TaskSpec.Shifted.id_ne {a b : TaskSpec} (shifted : a.Shifted b) : a.id ≠ b.id := by
  obtain ⟨middle, id, -⟩ := shifted
  intro same
  have lengths := congrArg (fun text : String => text.toList.length) id
  rw [← same] at lengths
  simp at lengths

/-- Two tasks with one text are the same task and version, or shifted. -/
theorem TaskSpec.cacheName_cases {a b : TaskSpec} (same : a.cacheName = b.cacheName) :
    (a.id = b.id ∧ a.version = b.version) ∨ a.Shifted b ∨ b.Shifted a := by
  obtain ⟨id, version⟩ | ⟨middle, id, version⟩ | ⟨middle, id, version⟩ :=
    List.append_cons_cases same
  · exact .inl ⟨Id.ext (String.toList_inj.mp id), String.toList_inj.mp version⟩
  · refine .inr (.inl ⟨String.ofList middle, ?_, ?_⟩)
    · exact String.toList_inj.mp (by simp [id])
    · exact String.toList_inj.mp (by simp [version])
  · refine .inr (.inr ⟨String.ofList middle, ?_, ?_⟩)
    · exact String.toList_inj.mp (by simp [id])
    · exact String.toList_inj.mp (by simp [version])

section Keys

variable {hasher : InputHasher} {task task' : TaskSpec} {input input' : Value}

/-- The key of a serialized input; its text is never blank. -/
theorem TaskCacheKey.forInput_of_toVec (task : TaskSpec) {bytes : List UInt8}
    (written : hasher.toVec input = .ok bytes) :
    ∃ key, TaskCacheKey.forInput hasher task input = .ok key ∧
      key.key.value.toList =
        task.cacheName ++ ':' :: (hexDigest (hasher.digest bytes)).toList := by
  have text : (s!"{task.id}@{task.version}:{hexDigest (hasher.digest bytes)}").toList =
      task.cacheName ++ ':' :: (hexDigest (hasher.digest bytes)).toList := by
    simp [toString, TaskSpec.cacheName]
  have filled : isBlank s!"{task.id}@{task.version}:{hexDigest (hasher.digest bytes)}" = false := by
    have colon : isWhiteSpace ':' = false := by decide
    rw [isBlank, text, List.all_append, List.all_cons, colon, Bool.false_and, Bool.and_false]
  refine ⟨⟨⟨_⟩, task.id, task.version⟩, ?_, text⟩
  simp only [forInput, written, Id.new, filled, Bool.false_eq_true, if_false]

/-- A key comes from a serialized input. -/
theorem TaskCacheKey.text_of_forInput {key : TaskCacheKey}
    (made : TaskCacheKey.forInput hasher task input = .ok key) :
    ∃ bytes, hasher.toVec input = .ok bytes ∧ key.key.value.toList =
      task.cacheName ++ ':' :: (hexDigest (hasher.digest bytes)).toList := by
  cases written : hasher.toVec input with
  | error text =>
      simp only [forInput, written] at made
      cases made
  | ok bytes =>
      obtain ⟨key', made', text⟩ := forInput_of_toVec task written
      obtain rfl := Except.ok.inj (made.symm.trans made')
      exact ⟨bytes, rfl, text⟩

/-- What the text of a key determines, where digests of different inputs differ. -/
theorem TaskCacheKey.key_eq_iff {key key' : TaskCacheKey}
    (collisionFree : ∀ input input' bytes bytes', hasher.toVec input = .ok bytes →
      hasher.toVec input' = .ok bytes' → hasher.digest bytes = hasher.digest bytes' →
        bytes = bytes')
    (readBack : ∃ read : List UInt8 → Option Value, ∀ input bytes,
      hasher.toVec input = .ok bytes → read bytes = some input)
    (made : TaskCacheKey.forInput hasher task input = .ok key)
    (made' : TaskCacheKey.forInput hasher task' input' = .ok key') :
    key.key = key'.key ↔ task.cacheName = task'.cacheName ∧ input = input' := by
  obtain ⟨bytes, written, text⟩ := text_of_forInput made
  obtain ⟨bytes', written', text'⟩ := text_of_forInput made'
  constructor
  · intro same
    have texts := text.symm.trans ((congrArg (fun key : CacheKey => key.value.toList) same).trans
      text')
    obtain ⟨names, digests⟩ := List.eq_of_append_cons texts (colon_notMem_hexDigest _)
      (colon_notMem_hexDigest _)
    obtain rfl := collisionFree _ _ _ _ written written'
      (hexDigest_inj (String.toList_inj.mp digests))
    obtain ⟨read, reads⟩ := readBack
    exact ⟨names, Option.some.inj ((reads _ _ written).symm.trans (reads _ _ written'))⟩
  · rintro ⟨names, rfl⟩
    obtain rfl := Except.ok.inj (written.symm.trans written')
    exact Id.ext (String.toList_inj.mp (by rw [text, text', names]))

end Keys

/-- Every value that a get returns was put for the same task id, version and input. -/
def OwnAnswers (hasher : InputHasher) (calls : List CacheCall) : Prop :=
  ∀ before task input value, before ++ [.get task input] <+: calls →
    (taskCache hasher).answer ((taskCache hasher).after before) (.get task input) =
        .ok (some value) →
      ∃ task', .put task' input value ∈ before ∧ task'.id = task.id ∧
        task'.version = task.version

section Histories

variable {hasher : InputHasher}

theorem answer_get {cache : InMemoryTaskCache} {task : TaskSpec} {input : Value}
    {key : TaskCacheKey} (made : TaskCacheKey.forInput hasher task input = .ok key) :
    (taskCache hasher).answer cache (.get task input) = .ok cache.values[key.key]? := by
  change (cache.step hasher (.get task input)).1 = _
  simp only [InMemoryTaskCache.step, made]
  rfl

/-- A get that returns a value had a key for its input. -/
theorem key_of_answer {cache : InMemoryTaskCache} {task : TaskSpec} {input value : Value}
    (answered : (taskCache hasher).answer cache (.get task input) = .ok (some value)) :
    ∃ key, TaskCacheKey.forInput hasher task input = .ok key ∧
      cache.values[key.key]? = some value := by
  cases made : TaskCacheKey.forInput hasher task input with
  | error error =>
      change (cache.step hasher (.get task input)).1 = _ at answered
      simp only [InMemoryTaskCache.step, made] at answered
      cases answered
  | ok key =>
      rw [answer_get made] at answered
      exact ⟨key, rfl, Except.ok.inj answered⟩

/-- Every stored value was put under its key. -/
theorem put_of_value {calls : List CacheCall} {key : CacheKey} {value : Value}
    (found : ((taskCache hasher).after calls).values[key]? = some value) :
    ∃ task input made, .put task input value ∈ calls ∧
      TaskCacheKey.forInput hasher task input = .ok made ∧ made.key = key := by
  induction calls using Machine.history_induction with
  | nil => simp [taskCache] at found
  | concat calls call ih =>
      have kept : ((taskCache hasher).after calls).values[key]? = some value →
          ∃ task input made, .put task input value ∈ calls ++ [call] ∧
            TaskCacheKey.forInput hasher task input = .ok made ∧ made.key = key := by
        intro before
        obtain ⟨task, input, made, member, own⟩ := ih before
        exact ⟨task, input, made, List.mem_append_left _ member, own⟩
      rw [Machine.after_concat] at found
      change (InMemoryTaskCache.step hasher _ call).2.values[key]? = some value at found
      cases call with
      | get task input =>
          simp only [InMemoryTaskCache.step] at found
          split at found <;> exact kept found
      | put task input output =>
          simp only [InMemoryTaskCache.step] at found
          split at found
          · exact kept found
          next made formed =>
            rw [InMemoryTaskCache.put, BTreeMap.getElem?_insert] at found
            split at found
            next own =>
              obtain rfl := Option.some.inj found
              exact ⟨task, input, made, List.mem_append_right _ List.mem_cons_self, formed, own⟩
            · exact kept found

/-- A get finds what was put last for a task with the same text before the colon. -/
theorem answer_of_put
    (collisionFree : ∀ input input' bytes bytes', hasher.toVec input = .ok bytes →
      hasher.toVec input' = .ok bytes' → hasher.digest bytes = hasher.digest bytes' →
        bytes = bytes')
    (readBack : ∃ read : List UInt8 → Option Value, ∀ input bytes,
      hasher.toVec input = .ok bytes → read bytes = some input)
    (a b : TaskSpec) {input : Value} {bytes : List UInt8} (written : hasher.toVec input = .ok bytes)
    (names : a.cacheName = b.cacheName) (value : Value) :
    (taskCache hasher).answer ((taskCache hasher).after [.put a input value]) (.get b input) =
      .ok (some value) := by
  obtain ⟨key, made, -⟩ := TaskCacheKey.forInput_of_toVec a written
  obtain ⟨key', made', -⟩ := TaskCacheKey.forInput_of_toVec b written
  have same : key.key = key'.key :=
    (TaskCacheKey.key_eq_iff collisionFree readBack made made').mpr ⟨names, rfl⟩
  rw [answer_get made']
  change Except.ok (InMemoryTaskCache.step hasher ⟨∅⟩ (.put a input value)).2.values[key'.key]? = _
  simp only [InMemoryTaskCache.step, made]
  exact congrArg Except.ok ((BTreeMap.getElem?_insert _ _ _ _).trans (if_pos same))

end Histories

/-- Where digests of different inputs differ, the text of a key determines the task and
version unless the two tasks are shifted, and of a set of tasks every history answers with
own values exactly where no two of them are. -/
theorem cache_answers_own_iff (hasher : InputHasher)
    (collisionFree : ∀ input input' bytes bytes', hasher.toVec input = .ok bytes →
      hasher.toVec input' = .ok bytes' → hasher.digest bytes = hasher.digest bytes' →
        bytes = bytes')
    (readBack : ∃ read : List UInt8 → Option Value, ∀ input bytes,
      hasher.toVec input = .ok bytes → read bytes = some input) :
    (∀ task task' input input' key key', TaskCacheKey.forInput hasher task input = .ok key →
      TaskCacheKey.forInput hasher task' input' = .ok key' →
        ((key.key = key'.key → task.id = task'.id ∧ task.version = task'.version ∧
            input = input') ↔
          ¬ (input = input' ∧ (task.Shifted task' ∨ task'.Shifted task)))) ∧
    ∀ (tasks : TaskSpec → Prop) (input : Value) (bytes : List UInt8),
      hasher.toVec input = .ok bytes →
        ((∀ calls : List CacheCall, (∀ call ∈ calls, tasks call.task) → OwnAnswers hasher calls) ↔
          ∀ a b, tasks a → tasks b → ¬ a.Shifted b) := by
  have determined : ∀ {task task' : TaskSpec} {input input' : Value} {key key' : TaskCacheKey},
      TaskCacheKey.forInput hasher task input = .ok key →
      TaskCacheKey.forInput hasher task' input' = .ok key' →
      (key.key = key'.key ↔ task.cacheName = task'.cacheName ∧ input = input') :=
    TaskCacheKey.key_eq_iff collisionFree readBack
  refine ⟨fun task task' input input' key key' made made' => ?_,
    fun tasks input bytes written => ⟨fun own a b ha hb shifted => ?_, fun apart calls known => ?_⟩⟩
  · rw [determined made made']
    constructor
    · rintro same ⟨rfl, shifted | shifted⟩
      · exact shifted.id_ne (same ⟨shifted.cacheName, rfl⟩).1
      · exact shifted.id_ne (same ⟨shifted.cacheName.symm, rfl⟩).1.symm
    · rintro apart ⟨names, rfl⟩
      obtain ⟨id, version⟩ | shifted := TaskSpec.cacheName_cases names
      · exact ⟨id, version, rfl⟩
      · exact absurd ⟨rfl, shifted⟩ apart
  · have answered := answer_of_put collisionFree readBack a b written shifted.cacheName .null
    obtain ⟨task', member, id, -⟩ := own [.put a input .null, .get b input]
      (by simp [CacheCall.task, ha, hb]) [.put a input .null] b input .null
      (List.prefix_refl _) answered
    obtain rfl : task' = a := by simpa using member
    exact shifted.id_ne id
  · intro before task input value within answered
    obtain ⟨key, made, found⟩ := key_of_answer answered
    obtain ⟨task', input', key', member, made', same⟩ := put_of_value found
    obtain ⟨names, rfl⟩ := (determined made' made).mp same
    have mine : tasks task := known _ (within.subset (List.mem_append_right _ List.mem_cons_self))
    have other : tasks task' := known _ (within.subset (List.mem_append_left _ member))
    obtain ⟨id, version⟩ | shifted | shifted := TaskSpec.cacheName_cases names
    · exact ⟨task', member, id, version⟩
    · exact absurd shifted (apart _ _ other mine)
    · exact absurd shifted (apart _ _ mine other)

namespace Sample

/-- What the two libraries compute for the input null, which is the only one. -/
def nullHasher : InputHasher where
  toVec
    | .null => .ok "null".toUTF8.toList
    | _ => .error "unsupported input"
  digest _ := [116, 35, 78, 152, 175, 231, 73, 143,
    181, 218, 241, 243, 106, 194, 215, 138,
    204, 51, 148, 100, 249, 80, 112, 59,
    140, 1, 152, 146, 249, 130, 185, 11]

theorem nullHasher_toVec {input : Value} {bytes : List UInt8}
    (written : nullHasher.toVec input = .ok bytes) :
    input = .null ∧ bytes = "null".toUTF8.toList := by
  cases input with
  | null => exact ⟨rfl, (Except.ok.inj written).symm⟩
  | _ => cases written

theorem nullHasher_collisionFree (input input' : Value) (bytes bytes' : List UInt8)
    (written : nullHasher.toVec input = .ok bytes)
    (written' : nullHasher.toVec input' = .ok bytes')
    (_ : nullHasher.digest bytes = nullHasher.digest bytes') : bytes = bytes' := by
  rw [(nullHasher_toVec written).2, (nullHasher_toVec written').2]

theorem nullHasher_readBack : ∃ read : List UInt8 → Option Value, ∀ input bytes,
    nullHasher.toVec input = .ok bytes → read bytes = some input :=
  ⟨fun _ => some .null, fun _ _ written => by rw [(nullHasher_toVec written).1]⟩

/-- A task that has the name of the other one when its version is put after its id. -/
def embedder : TaskSpec := ⟨⟨"embed"⟩, "large@2", "embed", ∅⟩

def largeEmbedder : TaskSpec := ⟨⟨"embed@large"⟩, "2", "embed", ∅⟩

end Sample

/-- Histories of one task answer with its own values. -/
theorem cache_answers_own_iff_embedder : OwnAnswers Sample.nullHasher
    [.put Sample.embedder .null (.bool true), .get Sample.embedder .null] := by
  refine ((cache_answers_own_iff Sample.nullHasher Sample.nullHasher_collisionFree
    Sample.nullHasher_readBack).2 (· = Sample.embedder) .null _ rfl).mpr ?_ _
    (by simp [CacheCall.task])
  rintro a b rfl rfl shifted
  exact shifted.id_ne rfl

/-- A task gets the value that was put for another one. -/
theorem other_task_answered :
    (taskCache Sample.nullHasher).answer
        ((taskCache Sample.nullHasher).after [.put Sample.embedder .null (.bool true)])
        (.get Sample.largeEmbedder .null) = .ok (some (.bool true)) ∧
      ¬ OwnAnswers Sample.nullHasher
        [.put Sample.embedder .null (.bool true), .get Sample.largeEmbedder .null] := by
  have answered := answer_of_put Sample.nullHasher_collisionFree Sample.nullHasher_readBack
    Sample.embedder Sample.largeEmbedder (rfl : Sample.nullHasher.toVec .null = .ok _) (by decide)
    (.bool true)
  refine ⟨answered, fun own => ?_⟩
  obtain ⟨task, member, id, -⟩ := own [.put Sample.embedder .null (.bool true)]
    Sample.largeEmbedder .null (.bool true) (List.prefix_refl _) answered
  obtain rfl : task = Sample.embedder := by simpa using member
  exact absurd id (by decide)

end Orchestrator
