import Mathlib.Data.List.Infix
import Mathlib.Data.List.Perm.Subperm
import IntramindRuntime.Library.Checks
import IntramindRuntime.Library.JsonShape
import IntramindRuntime.Library.Number
import IntramindRuntime.Library.Utf8
import IntramindRuntime.Proxy.StreamEvents

/-!
# The release gate

A release is qualified by a manifest: an inventory of tasks, reports of tests, and reports of
measurements with a policy that bounds them. Nothing of it is trusted. The gate reads the bytes
that the manifest refers to, and gathers what speaks against the release. The release is qualified
if nothing does, so every check must fail on a value that is missing or has another shape.

## Main definitions

* `Readers` — the functions that the gate is given
* `violations` — what speaks against a release
* `Qualified` — what a qualified release is

## Main results

* `junitCases_spec`, `qualify_spec` — what an accepted report says
* `inventory_spec` — a complete inventory has every known task once
* `violations_sound` — without violations, the release is qualified
-/

namespace IntramindRuntime.Release

open Library Check

/-! ### Values -/

/-- An element of an XML document, without its texts. -/
inductive Xml
  | element (tag : String) (attributes : List (String × String)) (children : List Xml)

namespace Xml

def tag : Xml → String
  | .element tag _ _ => tag

/-- An attribute. -/
def get (name : String) : Xml → Option String
  | .element _ attributes _ => attributes.lookup name

mutual

/-- An element and all that are in it. -/
def iter : Xml → List Xml
  | .element tag attributes children => .element tag attributes children :: iterAll children

/-- `iter` for some elements. -/
def iterAll : List Xml → List Xml
  | [] => []
  | first :: rest => first.iter ++ iterAll rest

end

/-- The elements with a tag. -/
def iterTag (xml : Xml) (tag : String) : List Xml := xml.iter.filter (·.tag = tag)

end Xml

/-- The functions that the gate is given. -/
structure Readers where
  /-- The bytes of a file, if it can be read. -/
  file : String → Option (List UInt8)
  /-- The hexadecimal digest of bytes. -/
  sha256 : List UInt8 → String
  json : List UInt8 → Option Json
  /-- The text of bytes, without a byte order mark. -/
  decode : List UInt8 → Option String
  upper : String → String
  xml : String → Option Xml
  int : String → Option ℤ
  /-- The value of a real number. -/
  real : String → Number
  str : Json → String

section Values

variable (readers : Readers)

/-- `bool(value)` -/
def truthy : Json → Bool :=
  Proxy.Builtins.truthy ⟨fun _ => none, fun text => readers.real text ≠ .rat 0⟩

/-- The number that a value is compared as. -/
def number? : Json → Option Number
  | .int n => some (.rat n)
  | .bool b => some (.rat (if b then 1 else 0))
  | .real text => some (readers.real text)
  | _ => none

mutual

/-- Values are equal. Objects are dictionaries, and numbers are equal across their types. -/
def equal : Json → Json → Bool
  | .null, .null => true
  | .str text, .str text' => text = text'
  | .arr items, .arr items' => equalItems items items'
  | .obj members, .obj members' => members.length = members'.length && equalMembers members members'
  | value, value' =>
    match number? readers value, number? readers value' with
    -- All that is read as `NaN` is one object, and a container is searched for the object first.
    | some n, some n' => n = n'
    | _, _ => false

/-- `equal` for the items of arrays. -/
def equalItems : List Json → List Json → Bool
  | [], [] => true
  | item :: rest, item' :: rest' => equal item item' && equalItems rest rest'
  | _, _ => false

/-- Every member is equal to the one of its name in an object. -/
def equalMembers : List (String × Json) → List (String × Json) → Bool
  | [], _ => true
  | (name, value) :: rest, members' =>
    (match (Json.obj members').get? name with
      | some value' => equal value value'
      | none => false) && equalMembers rest members'

end

/-- `_finite_number`. An integer that no float can hold is not finite. -/
def finiteNumber : Json → Bool
  | .int n => n.natAbs < 2 ^ 1024 - 2 ^ 970
  | .real text => (readers.real text).isFinite
  | _ => false

end Values

/-! ### Reports -/

/-- `[a-f0-9]{64}` -/
def isDigest (text : String) : Bool :=
  text.toList.length = 64 &&
    text.toList.all fun c => ('a' ≤ c && c ≤ 'f') || ('0' ≤ c && c ≤ '9')

/-- The texts of an array of texts. -/
def texts? (value : Json) : Option (List String) := value.items?.bind (List.mapM Json.text?)

section Reports

variable (readers : Readers)

/-- `_read_report` -/
def readReport (reference : Json) : Except String (List UInt8) :=
  if !reference.isObj then .error "report reference required"
  else match (reference.get "report_path").text? with
    | none | some "" => .error "report_path required"
    | some name =>
      match (reference.get "report_sha256").text?.filter isDigest with
      | none => .error "valid report_sha256 required"
      | some digest =>
        match readers.file name with
        | none => .error "report cannot be read"
        | some content =>
          if content = [] || 16 * 1024 * 1024 < content.length then
            .error "report must contain 1 byte to 16 MiB"
          else if readers.sha256 content ≠ digest then .error "report SHA256 mismatch"
          else .ok content

/-- `_json_report` -/
def jsonReport (content : List UInt8) : Except String Json :=
  match readers.json content with
  | none => .error "invalid JSON report"
  | some data =>
    match data.isObj, data.get "schema_version" with
    | true, .int 1 => .ok data
    | _, _ => .error "JSON object with schema_version=1 required"

/-- `_case_names` -/
def caseNames (value : Json) : Except String (List String) :=
  match (texts? value).filter fun names => names ≠ [] && "" ∉ names with
  | none => .error "nonempty testcase list required"
  | some names =>
    if names.Nodup then .ok names else .error "testcase identities must be distinct"

/-- The identity of a case. -/
def identity (case : Xml) : String :=
  (case.get "classname").getD "" ++ "::" ++ (case.get "name").getD "None"

/-- A case has a name and has passed. -/
def passed (case : Xml) : Bool :=
  case.get "name" ∉ [none, some ""] &&
    (case.get "status").getD "run" ∈ ["run", "passed", "success", "completed"] &&
    (case.get "result").getD "completed" = "completed"

/-- The counters of a suite and what they must be. -/
def totals (suite : Xml) : List (String × ℤ) :=
  [("tests", (suite.iterTag "testcase").length), ("failures", 0), ("errors", 0), ("skipped", 0),
    ("disabled", 0)]

/-- Check a counter of a suite. -/
def checkCounter (suite : Xml) (counter : String × ℤ) : Except String Unit :=
  match suite.get counter.1 with
  | none => .ok ()
  | some text =>
    match readers.int text with
    | none => .error "invalid JUnit counters"
    | some actual =>
      require (actual = counter.2) "JUnit counters disagree with testcase outcomes"

/-- The text holds a declaration. -/
def declares (text : String) : Bool :=
  decide ("<!DOCTYPE".toList <:+: (readers.upper text).toList) ||
    decide ("<!ENTITY".toList <:+: (readers.upper text).toList)

/-- `_junit_cases` -/
def junitCases (content : List UInt8) (required : Json) : Except String (List String) :=
  match caseNames required with
  | .error reason => .error ("required_testcases: " ++ reason)
  | .ok required =>
    match readers.decode content with
    | none => .error "JUnit report must use UTF-8"
    | some text =>
      if declares readers text then .error "JUnit declarations are not supported"
      else match readers.xml text with
        | none => .error "invalid JUnit XML"
        | some root => do
          require (root.tag ∈ ["testsuite", "testsuites"])
            "JUnit testsuite/testsuites root required"
          let cases := root.iterTag "testcase"
          require (cases.length ≠ 0) "JUnit contains no executed tests"
          require (root.iter.all fun element => element.tag ∉ ["failure", "error", "skipped"])
            "JUnit contains failures/errors/skips"
          require (cases.all passed)
            "every JUnit testcase must pass; failures/errors/skips block release"
          require (cases.map identity).Nodup "duplicate JUnit testcase identities"
          checkAll (fun suite => checkAll (checkCounter readers suite) (totals suite))
            (root.iter.filter fun suite => suite.tag ∈ ["testsuite", "testsuites"])
          require (required.all fun name => name ∈ cases.map identity)
            "required testcase coverage is missing"
          return required

/-- `_valid_profile` -/
def validProfile (profile : Json) : Bool :=
  profile.isObj && (profile.get "profile_id").text? ∉ [none, some ""] &&
    (profile.get "fingerprint_sha256").text?.any isDigest

/-- `REQUIRED_MEASUREMENTS`, with the least and the greatest value of each metric. -/
def requiredMeasurements : List (String × List (String × Option ℚ × Option ℚ)) :=
  [("gpu_capacity", [("samples", some 1, none), ("oom_count", some 0, some 0),
      ("memory_headroom_bytes", some 1, none)]),
    ("offhost_restore", [("rpo_seconds", some 0, some 900), ("rto_seconds", some 0, some 14400),
      ("offhost_restore_completed", some 1, some 1), ("restored_artifact_checks", some 1, none),
      ("broken_artifact_refs", some 0, some 0)]),
    ("celery_drained", [("queued_business_tasks", some 0, some 0),
      ("active_business_tasks", some 0, some 0), ("reserved_business_tasks", some 0, some 0)])]

/-- The value violates a least or a greatest value. -/
def exceeds (value : Json) (least greatest : Option Number) : Bool :=
  match number? readers value with
  | none => false
  | some n => least.any (fun bound => n < bound) || greatest.any fun bound => bound < n

/-- Check a metric that is required. -/
def checkRequired (limits measured : Json) (metric : String × Option ℚ × Option ℚ) :
    Except String Unit := do
  let value := measured.get metric.1
  require ((limits.get? metric.1).isSome && finiteNumber readers value)
    (metric.1 ++ ": measurement and policy threshold required")
  require (!exceeds readers value (metric.2.1.map .rat) (metric.2.2.map .rat))
    (metric.1 ++ ": accepted release requirement not met")

/-- A bound of a policy, as a number. -/
def boundOf (bound : Json) (name : String) : Option Number :=
  (bound.get? name).bind (number? readers)

/-- Check a metric of the policy. -/
def checkLimit (limits measured : Json) (metric : String) : Except String Unit := do
  let value := measured.get metric
  let bound := limits.get metric
  require (finiteNumber readers value && bound.isObj && truthy readers (bound.get "unit"))
    (metric ++ ": numeric measurement and policy unit required")
  let checks := ["minimum", "maximum"].filterMap bound.get?
  require (checks.length ≠ 0 && checks.all (finiteNumber readers))
    (metric ++ ": finite policy bounds required")
  require (!(boundOf readers bound "minimum").any fun least =>
      (boundOf readers bound "maximum").any fun greatest => greatest < least)
    (metric ++ ": contradictory policy bounds")
  require (!exceeds readers value (boundOf readers bound "minimum")
      (boundOf readers bound "maximum"))
    (metric ++ ": measured value exceeds qualified policy bounds")

/-- `_qualify` -/
def qualify (key : String) (content : List UInt8) (policy : Json) (policyHash profile : Json) :
    Except String Unit := do
  let report ← jsonReport readers content
  require ((report.get "gate").text? = some key && (report.get "status").text? = some "passed")
    "report gate/status mismatch"
  require (equal readers (report.get "production_capacity_profile") profile)
    "capacity profile mismatch"
  require (equal readers (report.get "policy_sha256") policyHash)
    "qualification policy hash mismatch"
  let limits := (policy.get "gates").get key
  let measured := report.get "measurements"
  require (limits.isObj && measured.isObj) "policy thresholds and measured values required"
  checkAll (checkRequired readers limits measured) ((requiredMeasurements.lookup key).getD [])
  checkAll (checkLimit readers limits measured) limits.names

end Reports

/-! ### The verdict -/

/-- `REQUIRED_EVIDENCE` -/
def requiredEvidence : List String :=
  ["ledger_fault_injection", "workflow_replay", "feature_regression", "api_security",
    "minio_contract", "gpu_capacity", "offhost_restore", "celery_drained"]

/-- `TEST_GATES` -/
def testGates : List String := requiredEvidence.take 5

/-- `INVENTORY_IDS` -/
def inventoryIds : List String :=
  [("A", 12), ("B", 8), ("D", 10), ("H", 8), ("O", 3), ("X", 2)].flatMap fun group =>
    (List.range group.2).map fun i =>
      group.1 ++ String.ofList [Nat.digitChar ((i + 1) / 10), Nat.digitChar ((i + 1) % 10)]

/-- The identities of an inventory are the known ones. -/
def complete (tasks : List Json) : Bool :=
  tasks.length = 43 &&
    (((tasks.filter Json.isObj).map (Json.get "id")).mapM Json.text?).any fun ids =>
      ids.all (· ∈ inventoryIds) && inventoryIds.all (· ∈ ids)

section Verdict

variable (readers : Readers) (manifest : Json)

/-- The qualification policy that a manifest refers to. -/
def qualificationPolicy : Except String Json := do
  let content ← readReport readers (manifest.get "qualification_policy")
  let policy ← jsonReport readers content
  require ((policy.get "source").text? ∉ [none, some ""]) "policy source required"
  let profile := manifest.get "production_capacity_profile"
  require (validProfile profile &&
    equal readers (policy.get "production_capacity_profile") profile) "capacity profile mismatch"
  require (policy.get "gates").isObj "gate thresholds required"
  return policy

/-- Check the evidence for a gate. The result is the verified cases of a gate of tests. -/
def checkEvidence (policy : Option Json) (key : String) : Except String (List String) := do
  let evidence := (manifest.get "evidence").get key
  require (evidence.isObj && (evidence.get "status").text? = some "passed")
    "qualified report required"
  let content ← readReport readers evidence
  let format := if key ∈ testGates then "junit_xml" else "qualification_json"
  require ((evidence.get "format").text? = some format) ("format must be " ++ format)
  if key ∈ testGates then
    junitCases readers content (evidence.get "required_testcases")
  else match policy with
    | none => .error "verified qualification policy required"
    | some policy => do
      qualify readers key content policy
        ((manifest.get "qualification_policy").get "report_sha256")
        (manifest.get "production_capacity_profile")
      return []

/-- Check the evidence of a task that has migrated. -/
def checkMigration (verified : List String) (reference : Json) : Except String Unit := do
  require (reference.isObj && (reference.get "gate").text? = some "feature_regression")
    "verified feature_regression testcases required"
  let cases ← caseNames (reference.get "testcases")
  require (cases.all (· ∈ verified)) "testcases were not qualified"

/-- What speaks against a task of the inventory. -/
def taskFailures (verified : List String) (task : Json) : List String :=
  if !task.isObj then []
  else
    let id := readers.str (task.get "id")
    let disposition := (task.get "disposition").text?
    (if disposition.any (· ∈ ["migrated", "retained_native", "removed"]) then []
      else [id ++ ": migration incomplete"]) ++
    if disposition = some "migrated" then
      (reasons (checkMigration verified (task.get "evidence"))).map fun reason =>
        id ++ ": migration evidence: " ++ reason
    else []

/-- `violations` -/
def violations : List String :=
  if !manifest.isObj then ["manifest must be an object"]
  else
    let tasks := (manifest.get "inventory").items?.getD []
    let policy := qualificationPolicy readers manifest
    let verified := (checkEvidence readers manifest policy.toOption "feature_regression").toOption
    (if complete tasks then [] else ["all 43 distinct inventory items must be accounted for"]) ++
    (if validProfile (manifest.get "production_capacity_profile") then []
      else ["measured production capacity profile with fingerprint required"]) ++
    (reasons policy).map ("qualification_policy: " ++ ·) ++
    requiredEvidence.flatMap (fun key =>
      (reasons (checkEvidence readers manifest policy.toOption key)).map (key ++ ": " ++ ·)) ++
    tasks.flatMap (taskFailures readers (verified.getD [])) ++
    if (manifest.get "artifact_backend").text? = some "minio" then []
    else ["this release must retain MinIO"]

end Verdict

/-! ### What a verdict says -/

section Meaning

variable (readers : Readers)

/-- The bytes of a report have been read, and have the digest that the reference gives. -/
structure Verified (reference : Json) (content : List UInt8) : Prop where
  file : ∃ name, reference.get "report_path" = .str name ∧ readers.file name = some content
  digest : reference.get "report_sha256" = .str (readers.sha256 content)

/-- A document says that all its cases have passed, and has the required ones. -/
structure Passing (root : Xml) (required : List String) : Prop where
  executed : root.iterTag "testcase" ≠ []
  clean : ∀ element ∈ root.iter, element.tag ∉ ["failure", "error", "skipped"]
  passed : ∀ test ∈ root.iterTag "testcase", passed test
  distinct : ((root.iterTag "testcase").map identity).Nodup
  counters : ∀ suite ∈ root.iter, suite.tag ∈ ["testsuite", "testsuites"] →
    ∀ counter ∈ totals suite, ∀ text ∈ suite.get counter.1, readers.int text = some counter.2
  covered : ∀ name ∈ required, name ∈ (root.iterTag "testcase").map identity

/-- The cases that a reference requires. -/
structure Requires (value : Json) (names : List String) : Prop where
  texts : value = .arr (names.map .str)
  nonempty : names ≠ []
  named : "" ∉ names
  distinct : names.Nodup

/-- The report of a gate of tests is verified and passing. -/
structure TestGate (evidence : Json) (root : Xml) (required : List String) : Prop where
  status : evidence.get "status" = .str "passed"
  format : evidence.get "format" = .str "junit_xml"
  verified : ∃ content text, Verified readers evidence content ∧
    readers.decode content = some text ∧ readers.xml text = some root
  requires : Requires (evidence.get "required_testcases") required
  passing : Passing readers root required

/-- A value is a finite number, neither below the least nor above the greatest value. -/
structure Within (value : Json) (least greatest : Option ℚ) : Prop where
  finite : finiteNumber readers value
  within : ∃ q, number? readers value = some (.rat q) ∧
    (∀ bound ∈ least, bound ≤ q) ∧ ∀ bound ∈ greatest, q ≤ bound

/-- The bound that a policy gives under a name, if it does. -/
def Bounds (bound : Json) (name : String) (limit : Option ℚ) : Prop :=
  (bound.get? name).map (number? readers) = limit.map fun q => some (.rat q)

/-- A report of measurements names its gate as passed, and keeps all bounds. -/
structure Measured (key : String) (report policy policyHash profile : Json) : Prop where
  gate : report.get "gate" = .str key
  status : report.get "status" = .str "passed"
  profile : equal readers (report.get "production_capacity_profile") profile
  policyHash : report.get "policy_sha256" = policyHash
  required : ∀ metric ∈ (requiredMeasurements.lookup key).getD [],
    metric.1 ∈ ((policy.get "gates").get key).names ∧
      Within readers ((report.get "measurements").get metric.1) metric.2.1 metric.2.2
  listed : ∀ metric ∈ ((policy.get "gates").get key).names, ∃ least greatest,
    Bounds readers (((policy.get "gates").get key).get metric) "minimum" least ∧
    Bounds readers (((policy.get "gates").get key).get metric) "maximum" greatest ∧
    (least.isSome ∨ greatest.isSome) ∧
      Within readers ((report.get "measurements").get metric) least greatest

/-- The report of a gate of measurements is verified and keeps all bounds. -/
structure OperationalGate (key : String) (evidence report policy policyHash profile : Json) :
    Prop where
  status : evidence.get "status" = .str "passed"
  format : evidence.get "format" = .str "qualification_json"
  verified : ∃ content, Verified readers evidence content ∧ readers.json content = some report
  measured : Measured readers key report policy policyHash profile

/-- The policy is verified, and is about the profile of the manifest. -/
structure Policy (reference policy profile : Json) : Prop where
  verified : ∃ content, Verified readers reference content ∧ readers.json content = some policy
  profile : equal readers (policy.get "production_capacity_profile") profile

/-- Every known task is in the inventory once, and has a finished disposition. -/
structure Inventory (tasks : List Json) : Prop where
  objects : ∀ task ∈ tasks, task.isObj
  ids : (tasks.map (Json.get "id")).Perm (inventoryIds.map .str)
  disposed : ∀ task ∈ tasks, ∃ disposition ∈ ["migrated", "retained_native", "removed"],
    task.get "disposition" = .str disposition

/-- A task that has migrated gives cases that are verified. -/
def Migrated (verified : List String) (task : Json) : Prop :=
  task.get "disposition" = .str "migrated" → ∃ names,
    Requires ((task.get "evidence").get "testcases") names ∧ names ⊆ verified

/-- What is known of a manifest that the gate accepts. -/
structure Qualified (manifest : Json) (tasks : List Json) (policy : Json)
    (verified : String → List String) : Prop where
  profile : validProfile (manifest.get "production_capacity_profile")
  qualification : Policy readers (manifest.get "qualification_policy") policy
    (manifest.get "production_capacity_profile")
  tests : ∀ key ∈ testGates, ∃ root,
    TestGate readers ((manifest.get "evidence").get key) root (verified key)
  operational : ∀ key ∈ requiredEvidence, key ∉ testGates → ∃ report,
    OperationalGate readers key ((manifest.get "evidence").get key) report policy
      ((manifest.get "qualification_policy").get "report_sha256")
      (manifest.get "production_capacity_profile")
  given : manifest.get "inventory" = .arr tasks
  inventory : Inventory tasks
  migrated : ∀ task ∈ tasks, Migrated (verified "feature_regression") task

/-! ### Every check is made -/

theorem mapM_text?_eq_some {values : List Json} {texts : List String} :
    values.mapM Json.text? = some texts ↔ values = texts.map .str := by
  induction values generalizing texts with
  | nil => cases texts <;> simp
  | cons value rest ih =>
    rw [List.mapM_cons]
    simp only [Option.bind_eq_bind, Option.bind_eq_some_iff, Json.text?_eq_some, ih]
    cases texts with
    | nil => simp
    | cons text others => simp

theorem texts?_eq_some {value : Json} {texts : List String} :
    texts? value = some texts ↔ value = .arr (texts.map .str) := by
  rw [texts?, Option.bind_eq_some_iff]
  simp only [Json.items?_eq_some, mapM_text?_eq_some]
  constructor
  · rintro ⟨items, rfl, rfl⟩
    rfl
  · rintro rfl
    exact ⟨_, rfl, rfl⟩

theorem text?_eq_some_of_filter {value : Json} {accepts : String → Bool} {text : String}
    (filtered : value.text?.filter accepts = some text) : value = .str text ∧ accepts text := by
  rw [Option.filter_eq_some_iff, Json.text?_eq_some] at filtered
  exact filtered

variable {readers}

theorem readReport_spec {reference : Json} {content : List UInt8}
    (read : readReport readers reference = .ok content) : Verified readers reference content := by
  unfold readReport at read
  split at read
  · cases read
  split at read
  · cases read
  · cases read
  rename_i name _ named
  split at read
  · cases read
  rename_i digest given
  split at read
  · cases read
  rename_i bytes there
  split at read
  · cases read
  split at read
  · cases read
  rename_i same
  obtain rfl := Except.ok.inj read
  rw [not_not] at same
  refine ⟨⟨name, Json.text?_eq_some.mp named, there⟩, ?_⟩
  rw [same]
  exact (text?_eq_some_of_filter given).1

theorem jsonReport_spec {content : List UInt8} {data : Json}
    (read : jsonReport readers content = .ok data) : readers.json content = some data := by
  unfold jsonReport at read
  split at read
  · cases read
  rename_i found parsed
  split at read
  · rw [parsed, Except.ok.inj read]
  · cases read

theorem caseNames_spec {value : Json} {names : List String} (read : caseNames value = .ok names) :
    Requires value names := by
  unfold caseNames at read
  split at read
  · cases read
  rename_i found filtered
  rw [Option.filter_eq_some_iff] at filtered
  split at read
  · rename_i distinct
    obtain rfl := Except.ok.inj read
    have accepted : found ≠ [] ∧ "" ∉ found := by simpa using filtered.2
    exact ⟨texts?_eq_some.mp filtered.1, accepted.1, accepted.2, distinct⟩
  · cases read

theorem checkCounter_eq_ok {suite : Xml} {counter : String × ℤ} :
    checkCounter readers suite counter = .ok () ↔
      ∀ text ∈ suite.get counter.1, readers.int text = some counter.2 := by
  unfold checkCounter
  cases suite.get counter.1 with
  | none => simp
  | some text => cases parsed : readers.int text <;> simp [parsed]

/-- What an accepted report of tests says. -/
theorem junitCases_spec {content : List UInt8} {value : Json} {names : List String}
    (read : junitCases readers content value = .ok names) : Requires value names ∧
      ∃ text root, readers.decode content = some text ∧ readers.xml text = some root ∧
        Passing readers root names := by
  unfold junitCases at read
  split at read
  · cases read
  rename_i required named
  split at read
  · cases read
  rename_i text decoded
  split at read
  · cases read
  split at read
  · cases read
  rename_i root parsed
  simp only [bind_eq_ok, require_eq_ok, checkAll_eq_ok, checkCounter_eq_ok] at read
  obtain ⟨-, -, -, executed, -, clean, -, passed, -, distinct, -, counters, -, covered, returned⟩ :=
    read
  obtain rfl := Except.ok.inj returned
  refine ⟨caseNames_spec named, text, root, decoded, parsed, ?_⟩
  simp only [List.all_eq_true, decide_eq_true_eq] at *
  exact {
    executed := fun none => executed (by rw [none]; rfl)
    clean
    passed
    distinct
    counters := fun suite member tagged =>
      counters suite (List.mem_filter.mpr ⟨member, decide_eq_true tagged⟩)
    covered }

theorem number_of_finite {value : Json} (finite : finiteNumber readers value) :
    ∃ q, number? readers value = some (.rat q) := by
  cases value with
  | int n => exact ⟨n, rfl⟩
  | real text =>
    change (readers.real text).isFinite at finite
    cases read : readers.real text with
    | rat q => exact ⟨q, congrArg some read⟩
    | _ => rw [read] at finite; cases finite
  | _ => cases finite

/-- A finite number that exceeds no bound is within the bounds. -/
theorem within_of_not_exceeds {value : Json} {least greatest : Option ℚ}
    (finite : finiteNumber readers value)
    (kept : exceeds readers value (least.map .rat) (greatest.map .rat) = false) :
    Within readers value least greatest := by
  obtain ⟨q, read⟩ := number_of_finite finite
  refine ⟨finite, q, read, ?_⟩
  rw [exceeds, read, Bool.or_eq_false_iff] at kept
  constructor
  · rintro bound ⟨⟩
    simpa using kept.1
  · rintro bound ⟨⟩
    simpa using kept.2

theorem checkRequired_spec {limits measured : Json} {metric : String × Option ℚ × Option ℚ}
    (accepted : checkRequired readers limits measured metric = .ok ()) :
    metric.1 ∈ limits.names ∧ Within readers (measured.get metric.1) metric.2.1 metric.2.2 := by
  simp only [checkRequired, bind_eq_ok, require_eq_ok, Bool.and_eq_true, Bool.not_eq_true']
    at accepted
  obtain ⟨-, ⟨listed, finite⟩, kept⟩ := accepted
  exact ⟨Json.isSome_get?_iff.mp listed, within_of_not_exceeds finite kept⟩

/-- A bound that is finite where it is given. -/
theorem bounds_of_finite {bound : Json} {name : String}
    (finite : ∀ limit ∈ bound.get? name, finiteNumber readers limit) :
    ∃ limit, Bounds readers bound name limit ∧ boundOf readers bound name = limit.map .rat := by
  cases given : bound.get? name with
  | none => exact ⟨none, by rw [Bounds, given]; rfl, by rw [boundOf, given]; rfl⟩
  | some limit =>
    obtain ⟨q, read⟩ := number_of_finite (finite limit given)
    refine ⟨some q, ?_, ?_⟩
    · rw [Bounds, given, Option.map_some, read]
      rfl
    · rw [boundOf, given, Option.bind_some, read]
      rfl

theorem Bounds.isSome {bound : Json} {name : String} {limit : Option ℚ}
    (bounds : Bounds readers bound name limit) (given : (bound.get? name).isSome) :
    limit.isSome := by
  have same := congrArg Option.isSome bounds
  rwa [Option.isSome_map, Option.isSome_map, given, eq_comm] at same

theorem checkLimit_spec {limits measured : Json} {metric : String}
    (accepted : checkLimit readers limits measured metric = .ok ()) : ∃ least greatest,
      Bounds readers (limits.get metric) "minimum" least ∧
      Bounds readers (limits.get metric) "maximum" greatest ∧
      (least.isSome ∨ greatest.isSome) ∧ Within readers (measured.get metric) least greatest := by
  simp only [checkLimit, bind_eq_ok, require_eq_ok, Bool.and_eq_true, Bool.not_eq_true'] at accepted
  obtain ⟨-, ⟨⟨finite, -⟩, -⟩, -, ⟨given, bounds⟩, -, -, kept⟩ := accepted
  have bounded : ∀ name ∈ ["minimum", "maximum"], ∀ limit ∈ (limits.get metric).get? name,
      finiteNumber readers limit := fun name known limit given =>
    List.all_eq_true.mp bounds limit (List.mem_filterMap.mpr ⟨name, known, given⟩)
  obtain ⟨least, below, least_eq⟩ := bounds_of_finite (bounded "minimum" (by simp))
  obtain ⟨greatest, above, greatest_eq⟩ := bounds_of_finite (bounded "maximum" (by simp))
  rw [least_eq, greatest_eq] at kept
  refine ⟨least, greatest, below, above, ?_, within_of_not_exceeds finite kept⟩
  obtain ⟨limit, member⟩ := List.length_pos_iff_exists_mem.mp
    (Nat.pos_of_ne_zero (of_decide_eq_true given))
  obtain ⟨name, known, there⟩ := List.mem_filterMap.mp member
  have isSome := Option.isSome_of_mem there
  rcases List.mem_pair.mp known with rfl | rfl
  · exact .inl (below.isSome isSome)
  · exact .inr (above.isSome isSome)

theorem equal_str {value : Json} {text : String} (same : equal readers value (.str text)) :
    value = .str text := by
  cases value with
  | str other => rw [equal, decide_eq_true_eq] at same; rw [same]
  | _ => simp [equal, number?] at same

theorem qualify_spec {key : String} {content : List UInt8} {policy policyHash profile : Json}
    {digest : String} (hash : policyHash = .str digest)
    (accepted : qualify readers key content policy policyHash profile = .ok ()) : ∃ report,
      readers.json content = some report ∧
        Measured readers key report policy policyHash profile := by
  simp only [qualify, bind_eq_ok, require_eq_ok, checkAll_eq_ok, Bool.and_eq_true,
    decide_eq_true_eq, Json.text?_eq_some] at accepted
  obtain ⟨report, read, -, ⟨gate, status⟩, -, profiled, -, hashed, -, -, -, required, listed⟩ :=
    accepted
  refine ⟨report, jsonReport_spec read, ?_⟩
  exact {
    gate
    status
    profile := profiled
    policyHash := by subst hash; exact equal_str hashed
    required := fun metric member => checkRequired_spec (required metric member)
    listed := fun metric member => checkLimit_spec (listed metric member) }

theorem qualificationPolicy_spec {manifest policy : Json}
    (accepted : qualificationPolicy readers manifest = .ok policy) :
    Policy readers (manifest.get "qualification_policy") policy
      (manifest.get "production_capacity_profile") := by
  simp only [qualificationPolicy, bind_eq_ok, require_eq_ok, Bool.and_eq_true] at accepted
  obtain ⟨content, read, found, parsed, -, -, -, ⟨-, profiled⟩, -, -, returned⟩ := accepted
  obtain rfl := Except.ok.inj returned
  exact ⟨⟨content, readReport_spec read, jsonReport_spec parsed⟩, profiled⟩

/-- The evidence that a gate of tests accepts. -/
theorem checkEvidence_tests {manifest : Json} {policy : Option Json} {key : String}
    {names : List String} (tests : key ∈ testGates)
    (accepted : checkEvidence readers manifest policy key = .ok names) :
    ∃ root, TestGate readers ((manifest.get "evidence").get key) root names := by
  simp only [checkEvidence, tests, if_true, bind_eq_ok, require_eq_ok, Bool.and_eq_true,
    decide_eq_true_eq, Json.text?_eq_some] at accepted
  obtain ⟨-, ⟨-, status⟩, content, read, -, format, checked⟩ := accepted
  obtain ⟨requires, text, root, decoded, parsed, passing⟩ := junitCases_spec checked
  exact ⟨root, status, format, ⟨content, text, readReport_spec read, decoded, parsed⟩, requires,
    passing⟩

/-- The evidence that a gate of measurements accepts. -/
theorem checkEvidence_operational {manifest : Json} {policy : Option Json} {key digest : String}
    {names : List String} (operational : key ∉ testGates)
    (hash : (manifest.get "qualification_policy").get "report_sha256" = .str digest)
    (accepted : checkEvidence readers manifest policy key = .ok names) : ∃ found report,
      policy = some found ∧
        OperationalGate readers key ((manifest.get "evidence").get key) report found
          ((manifest.get "qualification_policy").get "report_sha256")
          (manifest.get "production_capacity_profile") := by
  simp only [checkEvidence, operational, if_false, bind_eq_ok, require_eq_ok, Bool.and_eq_true,
    decide_eq_true_eq, Json.text?_eq_some] at accepted
  obtain ⟨-, ⟨-, status⟩, content, read, -, format, checked⟩ := accepted
  cases policy with
  | none => cases checked
  | some found =>
    simp only [bind_eq_ok] at checked
    obtain ⟨⟨⟩, qualified, -⟩ := checked
    obtain ⟨report, parsed, measured⟩ := qualify_spec hash qualified
    exact ⟨found, report, rfl, status, format, ⟨content, readReport_spec read, parsed⟩, measured⟩

/-- As many tasks as there are known ones, with all the known identities, are the known tasks. -/
theorem inventory_spec {tasks : List Json} (accepted : complete tasks) :
    (∀ task ∈ tasks, task.isObj) ∧
      (tasks.map (Json.get "id")).Perm (inventoryIds.map .str) := by
  simp only [complete, Bool.and_eq_true, decide_eq_true_eq, Option.any_eq_true, List.all_eq_true,
    mapM_text?_eq_some] at accepted
  obtain ⟨counted, ids, texts, -, every⟩ := accepted
  have distinct : inventoryIds.Nodup := by decide +kernel
  have known : inventoryIds.length = 43 := by decide +kernel
  have whole : ids.length = (tasks.filter Json.isObj).length := by
    rw [← List.length_map Json.str, ← texts, List.length_map]
  -- The identities are no more than the tasks, so no known one is there twice.
  have few : ids.length ≤ inventoryIds.length := by
    rw [known, whole, ← counted]
    exact List.length_filter_le _ _
  have perm : inventoryIds.Perm ids := (List.subperm_of_subset distinct every).perm_of_length_le few
  have all : tasks.filter Json.isObj = tasks := by
    rw [List.filter_eq_self, ← List.length_filter_eq_length_iff, ← whole, ← perm.length_eq, known,
      counted]
  rw [all] at texts
  exact ⟨List.filter_eq_self.mp all, texts ▸ (perm.map Json.str).symm⟩

theorem checkMigration_spec {verified : List String} {reference : Json}
    (accepted : checkMigration verified reference = .ok ()) :
    ∃ names, Requires (reference.get "testcases") names ∧ names ⊆ verified := by
  simp only [checkMigration, bind_eq_ok, require_eq_ok, List.all_eq_true, decide_eq_true_eq]
    at accepted
  obtain ⟨-, -, names, read, verified⟩ := accepted
  exact ⟨names, caseNames_spec read, verified⟩

theorem taskFailures_spec {verified : List String} {task : Json} (isObj : task.isObj)
    (accepted : taskFailures readers verified task = []) :
    (∃ disposition ∈ ["migrated", "retained_native", "removed"],
      task.get "disposition" = .str disposition) ∧ Migrated verified task := by
  simp only [taskFailures, isObj, Bool.not_true, Bool.false_eq_true, if_false,
    List.append_eq_nil_iff] at accepted
  obtain ⟨disposed, migrated⟩ := accepted
  constructor
  · split at disposed
    · rename_i finished
      obtain ⟨disposition, is, member⟩ := (Option.any_eq_true _ _).mp finished
      exact ⟨disposition, of_decide_eq_true member, Json.text?_eq_some.mp is⟩
    · cases disposed
  · intro is
    rw [if_pos (by rw [is]; rfl), List.map_eq_nil_iff, reasons_eq_nil] at migrated
    obtain ⟨⟨⟩, passed⟩ := migrated
    exact checkMigration_spec passed

/-- A manifest against which nothing speaks is qualified. -/
theorem violations_sound {manifest : Json} (accepted : violations readers manifest = []) :
    ∃ tasks policy verified, Qualified readers manifest tasks policy verified := by
  unfold violations at accepted
  split at accepted
  · cases accepted
  simp only [List.append_eq_nil_iff, List.map_eq_nil_iff, List.flatMap_eq_nil_iff, reasons_eq_nil,
    ite_eq_left_iff, List.cons_ne_nil, imp_false, not_not] at accepted
  obtain ⟨⟨⟨⟨⟨counted, profile⟩, policy, qualified⟩, evidence⟩, tasks⟩, -⟩ := accepted
  have found : (qualificationPolicy readers manifest).toOption = some policy := by
    rw [qualified]
    rfl
  rw [found] at evidence tasks
  cases given : (manifest.get "inventory").items? with
  | none =>
    rw [given] at counted
    exact absurd counted (by decide)
  | some listed =>
    rw [given, Option.getD_some] at counted tasks
    obtain ⟨objects, ids⟩ := inventory_spec counted
    have verified := qualificationPolicy_spec qualified
    obtain ⟨content, read, -⟩ := verified.verified
    have passes := fun task member => taskFailures_spec (objects task member) (tasks task member)
    refine ⟨listed, policy, fun key =>
      (checkEvidence readers manifest (some policy) key).toOption.getD [], ?_⟩
    exact {
      profile
      qualification := verified
      tests := by
        intro key member
        obtain ⟨names, accepted⟩ := evidence key (List.mem_of_mem_take member)
        obtain ⟨root, gate⟩ := checkEvidence_tests member accepted
        exact ⟨root, by rw [accepted]; exact gate⟩
      operational := by
        intro key member operational
        obtain ⟨names, accepted⟩ := evidence key member
        obtain ⟨found, report, same, gate⟩ :=
          checkEvidence_operational operational read.digest accepted
        obtain rfl := Option.some.inj same
        exact ⟨report, gate⟩
      given := Json.items?_eq_some.mp given
      inventory := ⟨objects, ids, fun task member => (passes task member).1⟩
      migrated := fun task member => (passes task member).2 }

end Meaning

/-! ### A release that is qualified -/

/-- The measurements of a release, by gate. -/
def sampleMeasurements : List (String × List (String × ℤ)) :=
  [("gpu_capacity", [("samples", 3), ("oom_count", 0), ("memory_headroom_bytes", 1024)]),
    ("offhost_restore", [("rpo_seconds", 60), ("rto_seconds", 600),
      ("offhost_restore_completed", 1), ("restored_artifact_checks", 5),
      ("broken_artifact_refs", 0)]),
    ("celery_drained", [("queued_business_tasks", 0), ("active_business_tasks", 0),
      ("reserved_business_tasks", 0)])]

/-- The digests of the files. -/
def sampleDigests : List (String × String) :=
  [("policy.json",
      "624ceca6f2fe706065b52766ef00289d7d49929fdd8f4b582591d6a5f0f9fdf1"),
    ("gpu_capacity",
      "8374b788ba581f4cd01f8d6f6a6d6118721791b3a79f7792590fcf7091276987"),
    ("offhost_restore",
      "6b1eca7102137dce47684f1b15b36cc479470e3d94719e0a0293cb96215a35c9"),
    ("celery_drained",
      "9b06a9d9a40ec52eb48c6b834c5c65358afd2815c31bd6bfe90223283cf0e428"),
    ("tests.xml",
      "690684bad66c21340b169f106496b4ce3298544baf8e9f14e73aad67d6626c33")]

/-- A file and its digest, as the fields of a reference. -/
def sampleReference (name : String) : List (String × Json) :=
  [("report_path", .str name), ("report_sha256", .str ((sampleDigests.lookup name).getD ""))]

def sampleProfile : Json :=
  .obj [("profile_id", .str "gpu-a"),
    ("fingerprint_sha256",
      .str "aaaaaaaaaaaaaaaaaaaaaaaaaaaaaaaaaaaaaaaaaaaaaaaaaaaaaaaaaaaaaaaa")]

def samplePolicy : Json :=
  .obj [("schema_version", .int 1), ("source", .str "review"),
    ("production_capacity_profile", sampleProfile),
    ("gates", .obj (sampleMeasurements.map fun gate =>
      (gate.1, .obj (gate.2.map fun metric =>
        (metric.1, .obj [("unit", .str "count"), ("minimum", .int 0)])))))]

def sampleReport (gate : String × List (String × ℤ)) : Json :=
  .obj [("schema_version", .int 1), ("gate", .str gate.1), ("status", .str "passed"),
    ("production_capacity_profile", sampleProfile),
    ("policy_sha256", .str ((sampleDigests.lookup "policy.json").getD "")),
    ("measurements", .obj (gate.2.map fun metric => (metric.1, .int metric.2)))]

def sampleTests : String :=
  "<testsuite tests=\"1\"><testcase classname=\"feature\" name=\"resume\" /></testsuite>"

/-- The texts of the files. -/
def sampleTexts : List (String × List Char) :=
  ("policy.json", samplePolicy.dumps) :: ("tests.xml", sampleTests.toList) ::
    sampleMeasurements.map fun gate => (gate.1, (sampleReport gate).dumps)

/-- The bytes of an ASCII text. -/
def sampleBytes (text : List Char) : List UInt8 := text.map fun c => c.toNat.toUInt8

/-- The text of ASCII bytes. -/
def sampleText (content : List UInt8) : List Char := content.map fun b => Char.ofNat b.toNat

/-- The functions, on the files of the release. -/
def sampleReaders : Readers where
  file name := (sampleTexts.lookup name).map sampleBytes
  sha256 content :=
    ((sampleTexts.find? fun file => file.2 = sampleText content).bind fun file =>
      sampleDigests.lookup file.1).getD ""
  json content := Json.loads (sampleText content)
  decode content := some (String.ofList (sampleText content))
  upper text := String.ofList (text.toList.map Char.toUpper)
  xml text :=
    if text = sampleTests then
      some (.element "testsuite" [("tests", "1")]
        [.element "testcase" [("classname", "feature"), ("name", "resume")] []])
    else none
  int text := match Json.loads text.toList with
    | some (.int n) => some n
    | _ => none
  real _ := .nan
  str value := value.text?.getD ""

/-- The first task has migrated. -/
def sampleTask (id : String) : Json :=
  .obj (if id = "A01" then [("id", .str id), ("disposition", .str "migrated"),
      ("evidence", .obj [("gate", .str "feature_regression"),
        ("testcases", .arr [.str "feature::resume"])])]
    else [("id", .str id), ("disposition", .str "retained_native")])

def sampleEvidence (key : String) : Json :=
  .obj (("status", .str "passed") ::
    if key ∈ testGates then ("format", .str "junit_xml") ::
      ("required_testcases", .arr [.str "feature::resume"]) :: sampleReference "tests.xml"
    else ("format", .str "qualification_json") :: sampleReference key)

def sampleManifest : Json :=
  .obj [("artifact_backend", .str "minio"), ("production_capacity_profile", sampleProfile),
    ("qualification_policy", .obj (sampleReference "policy.json")),
    ("evidence", .obj (requiredEvidence.map fun key => (key, sampleEvidence key))),
    ("inventory", .arr (inventoryIds.map sampleTask))]

theorem violations_sound_sample : ∃ tasks policy verified,
    Qualified sampleReaders sampleManifest tasks policy verified :=
  violations_sound (by decide +kernel)

end IntramindRuntime.Release
