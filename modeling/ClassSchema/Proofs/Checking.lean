import ClassSchema.CommandLine.Program
import ClassSchema.Proofs.CompactText
import ClassSchema.Proofs.Expandable
import ClassSchema.Proofs.Loading

/-!
# Checking agrees with generating

The command `check` makes the schemas of all classes in one go, and `generate` makes that of one class; both load the same
model from the same files. What each of them comes to is said once (`result_execute_check`, `result_execute_generate_ok`,
`result_execute_generate_error`). From these follows that the report of `check` tells class by class what `generate` does
(`check_reports_generate`). That a class is never ok above one that is not is a fact about expansions: along a trail the
classes have schemas with more classes open around them than a root has (`Model.exists_schema_of_reachable`).
-/

namespace ClassSchema

open Relation (ReflTransGen)

namespace Model

/-- What is reachable from a class that has a schema has a schema by itself. -/
theorem exists_schema_of_reachable {m : Model} {options : ExpansionOptions} {root name : String} {s : Schema}
    (h : (m.generate options root).result = .ok s) (hreach : ReflTransGen m.Refers root name) :
    ∃ t, (m.generate options name).result = .ok t := by
  obtain ⟨active, htrail⟩ := reachable_iff_exists_trail.1 hreach
  obtain ⟨t, ht⟩ := htrail.expands (expands_of_expand h)
  exact ⟨t, expand_ok_mono (List.nil_subset active) (Nat.zero_le _) (ht .empty)⟩

/-- A class that has a schema is registered. -/
theorem mem_names_of_generate {m : Model} {options : ExpansionOptions} {name : String} {s : Schema}
    (h : (m.generate options name).result = .ok s) : name ∈ m.classes.names := by
  obtain ⟨c, hc, -⟩ := expand_eq_ok_iff.1 h
  exact mem_names_of_get? hc

end Model

/-! ## What the commands come to -/

section Commands

variable {d : Disk} {models : List String} {options : ExpansionOptions} {m : Model}

/-- Reporting shared names does not fail. -/
theorem result_reportSharedNames {ε : Type} (m : Model) : (m.reportSharedNames : Traced ε Unit).result = .ok () := by
  unfold Model.reportSharedNames
  refine Traced.result_forM_eq_ok.2 ?_
  intro name _
  rfl

/-- Making the schemas of several classes has all their results, in order. -/
theorem result_generateEach (m : Model) (options : ExpansionOptions) (names : List String) :
    (generateEach m options names).result = .ok (names.map fun name => (name, (m.generate options name).result)) := by
  unfold generateEach
  refine Traced.result_mapM_eq_ok.2 ?_
  rw [List.map_map]
  rfl

/-- The failure of a report in which so many of so many classes have no schema. -/
def reportFailure (failed total : Nat) : Option CommandError :=
  if failed = 0 then none else some (.failedClasses failed total)

/-- The classes of a model that have no schema. -/
def failedNames (m : Model) (options : ExpansionOptions) : List String :=
  m.classes.names.filter fun name => !(m.generate options name).result.isOk

/-- What `check` comes to, once the model is loaded: a line for every class, and a failure if a class has no schema. -/
theorem result_execute_check (options : ExpansionOptions) (hload : (loadModel d models).result = .ok m) :
    ((Command.check models options).execute d).result =
      .ok ⟨String.join (m.classes.names.map fun name => checkLine name (m.generate options name).result),
        reportFailure (failedNames m options).length m.classes.names.length, d⟩ := by
  unfold Command.execute
  refine Traced.result_bind_eq_ok.2 ⟨m, hload, ?_⟩
  refine Traced.result_bind_eq_ok.2 ⟨(), result_reportSharedNames m, ?_⟩
  refine Traced.result_bind_eq_ok.2 ⟨_, result_generateEach m options m.classes.names, ?_⟩
  rw [Traced.result_pure, List.map_map, List.filter_map, List.length_map, List.length_map]
  rfl

/-- What `generate` comes to for a class that has a schema: the schema is printed. -/
theorem result_execute_generate_ok {root : String} {s : Schema} (hload : (loadModel d models).result = .ok m)
    (h : (m.generate options root).result = .ok s) :
    ((Command.generate models options root none).execute d).result = .ok ⟨s.toJson.pretty ++ "\n", none, d⟩ := by
  unfold Command.execute
  refine Traced.result_bind_eq_ok.2 ⟨m, hload, ?_⟩
  refine Traced.result_bind_eq_ok.2 ⟨(), result_reportSharedNames m, ?_⟩
  have hmade : ((m.generate options root).mapError CommandError.schema).result = .ok s := by
    unfold Traced.mapError
    rw [h]
    rfl
  exact Traced.result_bind_eq_ok.2 ⟨s, hmade, rfl⟩

/-- What `generate` comes to for a class that has no schema: its failure, wherever the schema was to be written. -/
theorem result_execute_generate_error {root : String} {e : SchemaError} (hload : (loadModel d models).result = .ok m)
    (h : (m.generate options root).result = .error e) (out : Option String) :
    ((Command.generate models options root out).execute d).result = .error (.schema e) := by
  unfold Command.execute
  refine Traced.result_bind_eq_error.2 (Or.inr ⟨m, hload, ?_⟩)
  refine Traced.result_bind_eq_error.2 (Or.inr ⟨(), result_reportSharedNames m, ?_⟩)
  have hmade : ((m.generate options root).mapError CommandError.schema).result = .error (.schema e) := by
    unfold Traced.mapError
    rw [h]
    rfl
  exact Traced.result_bind_eq_error.2 (Or.inl hmade)

end Commands

/-! ## What a run replies -/

section Replies

variable {d : Disk} (environment : Option String) {i : Invocation}

/-- A command that succeeds is answered by what it prints, with exit code zero. -/
theorem run_of_ok {stdout : String} {after : Disk} (h : (i.command.execute d).result = .ok ⟨stdout, none, after⟩) :
    (i.run d environment).exit = 0 ∧ (i.run d environment).stdout = stdout := by
  unfold Invocation.run
  simp only [h, and_self]

/-- A command that fails after it has printed is answered by both, with exit code one. -/
theorem run_of_failure {stdout : String} {e : CommandError} {after : Disk}
    (h : (i.command.execute d).result = .ok ⟨stdout, some e, after⟩) :
    (i.run d environment).exit = 1 ∧ (i.run d environment).stdout = stdout ∧
      ∃ log, (i.run d environment).stderr = log ++ "error: " ++ e.message ++ "\n" := by
  unfold Invocation.run
  simp only [h, true_and]
  exact ⟨_, rfl⟩

/-- A command that fails is answered with exit code one. -/
theorem run_of_error {e : CommandError} (h : (i.command.execute d).result = .error e) :
    (i.run d environment).exit = 1 := by
  unfold Invocation.run
  simp only [h]

/-- A class has a schema exactly if `generate` prints one. -/
theorem exists_schema_iff_run_generate {models : List String} {m : Model} (verbose quiet : Bool)
    (options : ExpansionOptions) (hload : (loadModel d models).result = .ok m) (root : String) :
    (∃ s, (m.generate options root).result = .ok s) ↔
      ∃ s : Schema, (Invocation.run d environment ⟨verbose, quiet, .generate models options root none⟩).exit = 0 ∧
        (Invocation.run d environment ⟨verbose, quiet, .generate models options root none⟩).stdout =
          s.toJson.pretty ++ "\n" := by
  constructor
  · rintro ⟨s, hs⟩
    exact ⟨s, run_of_ok environment (result_execute_generate_ok hload hs)⟩
  · rintro ⟨s, hexit, -⟩
    cases hmade : (m.generate options root).result with
    | ok t => exact ⟨t, rfl⟩
    | error e =>
      have hone := run_of_error environment (i := ⟨verbose, quiet, .generate models options root none⟩)
        (result_execute_generate_error hload hmade none)
      rw [hexit] at hone
      nomatch hone

/-- What the reply to `check` says: the lines of all classes, and a failure exactly if a class has no schema. -/
theorem run_check_cases {models : List String} {m : Model} (verbose quiet : Bool) (options : ExpansionOptions)
    (hload : (loadModel d models).result = .ok m) :
    ∃ reply, Invocation.run d environment ⟨verbose, quiet, .check models options⟩ = reply ∧
      reply.stdout = String.join (m.classes.names.map fun name => checkLine name (m.generate options name).result) ∧
      (failedNames m options = [] ∧ reply.exit = 0 ∨
        failedNames m options ≠ [] ∧ reply.exit = 1 ∧ ∃ log, reply.stderr =
          log ++ "error: " ++ s!"{(failedNames m options).length} of {m.classes.names.length} classes failed" ++ "\n") := by
  have hcheck := result_execute_check options hload
  unfold reportFailure at hcheck
  split at hcheck
  · next hzero =>
    obtain ⟨hexit, hstdout⟩ := run_of_ok environment (i := ⟨verbose, quiet, .check models options⟩) hcheck
    exact ⟨_, rfl, hstdout, Or.inl ⟨List.length_eq_zero_iff.1 hzero, hexit⟩⟩
  · next hsome =>
    obtain ⟨hexit, hstdout, hlog⟩ := run_of_failure environment (i := ⟨verbose, quiet, .check models options⟩) hcheck
    exact ⟨_, rfl, hstdout, Or.inr ⟨fun hnil => hsome (List.length_eq_zero_iff.2 hnil), hexit, hlog⟩⟩

end Replies

/-! ## The lines of a report -/

/-- Whether a line of a report is about a class that has no schema. -/
def isFailLine (line : String) : Bool := "FAIL ".toList.isPrefixOf line.toList

/-- The line of a class that has a schema is about no failure. -/
theorem isFailLine_ok (name : String) : isFailLine ("ok " ++ name ++ "\n") = false := by
  simp [isFailLine, List.isPrefixOf]

/-- The line of a class that has no schema is about its failure. -/
theorem isFailLine_fail (name : String) (e : SchemaError) :
    isFailLine ("FAIL " ++ name ++ ": " ++ e.message ++ "\n") = true := by
  simp [isFailLine]

/-- A line is about a failure when there is one. -/
theorem isFailLine_checkLine (name : String) (made : Except SchemaError Schema) :
    isFailLine (checkLine name made) = !made.isOk := by
  cases made with
  | ok s => exact isFailLine_ok name
  | error e => exact isFailLine_fail name e

/-- The line of a class says ok exactly if it has a schema. -/
theorem checkLine_eq_ok_iff {name : String} {made : Except SchemaError Schema} :
    checkLine name made = "ok " ++ name ++ "\n" ↔ ∃ s, made = .ok s := by
  cases made with
  | ok s => exact iff_of_true rfl ⟨s, rfl⟩
  | error e =>
    refine iff_of_false ?_ nofun
    intro h
    have hfail := isFailLine_checkLine name (.error e)
    rw [h, isFailLine_ok] at hfail
    nomatch hfail

/-! ## The report -/

/-- The report of `check` on the classes of a model, compared with what `generate` does for each of them. Commands are
answered by `answer`, and `line` is the line of a class. -/
structure CheckReport (d : Disk) (answer : Command → Reply) (m : Model) (models : List String)
    (options : ExpansionOptions) (line : String → String) : Prop where
  /-- Every class has a line, in the order declared. -/
  stdout_eq : (answer (.check models options)).stdout = String.join (m.classes.names.map line)
  /-- A class is ok exactly if `generate` prints a schema of it. -/
  ok_iff : ∀ name ∈ m.classes.names, line name = "ok " ++ name ++ "\n" ↔
    ∃ s : Schema, (answer (.generate models options name none)).exit = 0 ∧
      (answer (.generate models options name none)).stdout = s.toJson.pretty ++ "\n"
  /-- The line of any other class words the failure of `generate`. -/
  fail : ∀ name ∈ m.classes.names, line name ≠ "ok " ++ name ++ "\n" →
    ∃ e : SchemaError, line name = "FAIL " ++ name ++ ": " ++ e.message ++ "\n" ∧
      ∀ out, ((Command.generate models options name out).execute d).result = .error (.schema e) ∧
        (answer (.generate models options name out)).exit = 1
  /-- The check succeeds exactly if no line is about a failure. -/
  exit_eq_zero_iff : (answer (.check models options)).exit = 0 ↔
    ∀ name ∈ m.classes.names, isFailLine (line name) = false
  /-- If it does not succeed, it says how many of all lines are about a failure. -/
  failed : (answer (.check models options)).exit ≠ 0 →
    (answer (.check models options)).exit = 1 ∧
      ∃ log failed total, failed = (m.classes.names.filter fun name => isFailLine (line name)).length ∧
        total = m.classes.classes.length ∧
        (answer (.check models options)).stderr = log ++ "error: " ++ s!"{failed} of {total} classes failed" ++ "\n"
  /-- What is reachable from a class that is ok is ok. -/
  reachable : ∀ name ∈ m.classes.names, line name = "ok " ++ name ++ "\n" → ∀ other, ReflTransGen m.Refers name other →
    other ∈ m.classes.names ∧ line other = "ok " ++ other ++ "\n"

/-- What `check` reports of the classes of a model is what `generate` does for each of them, with the same files and the same
options. -/
theorem check_reports_generate (d : Disk) (environment : Option String) (verbose quiet : Bool) (models : List String)
    (options : ExpansionOptions) (m : Model) (hload : (loadModel d models).result = .ok m) :
    ∃ line, CheckReport d (fun c => Invocation.run d environment ⟨verbose, quiet, c⟩) m models options line := by
  obtain ⟨reply, hreply, hstdout, hexit⟩ := run_check_cases environment verbose quiet options hload
  -- The classes with a line about a failure are those without a schema.
  have hfailed : (m.classes.names.filter fun name => isFailLine (checkLine name (m.generate options name).result)) =
      failedNames m options := by
    unfold failedNames
    simp only [isFailLine_checkLine]
  have hnone : failedNames m options = [] ↔
      ∀ name ∈ m.classes.names, isFailLine (checkLine name (m.generate options name).result) = false := by
    rw [← hfailed, List.filter_eq_nil_iff]
    simp only [Bool.not_eq_true]
  refine ⟨fun name => checkLine name (m.generate options name).result, ?_, ?_, ?_, ?_, ?_, ?_⟩
  · rw [hreply, hstdout]
  · intro name _
    rw [checkLine_eq_ok_iff]
    exact exists_schema_iff_run_generate environment verbose quiet options hload name
  · intro name _ hline
    cases hmade : (m.generate options name).result with
    | ok s =>
      rw [hmade] at hline
      exact absurd rfl hline
    | error e =>
      refine ⟨e, rfl, ?_⟩
      intro out
      have hresult := result_execute_generate_error hload hmade out
      exact ⟨hresult, run_of_error environment hresult⟩
  · rw [hreply, ← hnone]
    rcases hexit with ⟨hnil, hzero⟩ | ⟨hsome, hone, -⟩
    · exact iff_of_true hzero hnil
    · exact iff_of_false (by rw [hone]; exact Nat.one_ne_zero) hsome
  · rw [hreply]
    intro hne
    rcases hexit with ⟨-, hzero⟩ | ⟨-, hone, log, hlog⟩
    · exact absurd hzero hne
    · exact ⟨hone, log, _, _, congrArg List.length hfailed.symm, List.length_map .., hlog⟩
  · intro name _ hline other hreach
    obtain ⟨s, hs⟩ := checkLine_eq_ok_iff.1 hline
    obtain ⟨t, ht⟩ := Model.exists_schema_of_reachable hs hreach
    exact ⟨Model.mem_names_of_generate ht, checkLine_eq_ok_iff.2 ⟨t, ht⟩⟩

/-- A file that has the bytes of a text is read as the text. -/
theorem Disk.readText_of_readFile {d : Disk} {path text : String} (h : d.readFile path = .ok text.toUTF8) :
    d.readText path = .ok text := by
  have hvalid : text.toUTF8.IsValidUTF8 := text.isValidUTF8
  have hback : String.fromUTF8? text.toUTF8 = some text := dif_pos hvalid
  unfold readText
  simp only [h, hback]

/-- A model file with a class that has a schema and one that has none. -/
def pointFile : Json :=
  .object [("classes", .object [("Point", .object [("x", .string "int")]), ("Line", .object [("ends", .string "Points")])])]

/-- What the file is read to. -/
def pointDecls : ModelFile := ⟨[], [("Point", [("x", .one "int")]), ("Line", [("ends", .one "Points")])]⟩

theorem parse_pointFile : ModelFile.parse pointFile.compact = .ok pointDecls := by
  have hnumbers : pointFile.OnlyIntegers64 := by
    intro n hpart
    simp [pointFile] at hpart
  have hclass : ∀ property written, ModelFile.ClassMeans (.object [(property, .string written)]) [(property, .one written)] :=
    fun property written => ⟨_, [(property, .one written)], rfl, .cons ⟨rfl, Nat.zero_le _, rfl⟩ .nil, rfl⟩
  have hclasses : ModelFile.ClassesMean
      (.object [("Point", .object [("x", .string "int")]), ("Line", .object [("ends", .string "Points")])])
      pointDecls.classes :=
    ⟨_, pointDecls.classes, rfl, .cons ⟨rfl, hclass _ _⟩ (.cons ⟨rfl, hclass _ _⟩ .nil), by decide⟩
  have hmeans : ModelFile.FileMeans pointFile (ModelFile.Sections.toFile ⟨none, some pointDecls.classes⟩) :=
    .object (.cons (.classes rfl hclasses) (.nil _))
  exact (Decoder.run_eq_ok_iff_means ModelFile.reads_file (Json.spells_compact pointFile hnumbers)).2 hmeans

/-- A disk with the file. -/
def pointDisk : Disk := ⟨[(["points.json"], .file pointFile.compact.toUTF8)], []⟩

theorem readText_pointDisk : pointDisk.readText "points.json" = .ok pointFile.compact := by
  have hfile : pointDisk.readFile "points.json" = .ok pointFile.compact.toUTF8 := by
    rfl
  exact Disk.readText_of_readFile hfile

/-- The file on the disk makes a model of its two classes. -/
theorem exists_loadModel_pointDisk : ∃ m, (loadModel pointDisk ["points.json"]).result = .ok m ∧
    m.classes.names = ["Point", "Line"] := by
  have hpaths : ["points.json"].mapM (modelPaths pointDisk) = .ok [["points.json"]] := by
    rfl
  have hproperties : ∀ f ∈ [pointDecls], ∀ c ∈ f.classes, (c.2.map (·.1)).Nodup := by decide
  obtain ⟨m, hm⟩ := (Model.exists_ofFiles_iff hproperties).2 (by decide)
  refine ⟨m, ?_, ?_⟩
  · have hread : (readModelFile pointDisk "points.json").result = .ok pointDecls := by
      unfold readModelFile
      rw [Traced.result_report_bind, readText_pointDisk]
      exact Traced.result_bind_eq_ok.2 ⟨_, rfl, by rw [parse_pointFile]; rfl⟩
    unfold loadModel
    refine Traced.result_bind_eq_ok.2 ⟨_, hpaths, Traced.result_bind_eq_ok.2 ⟨[pointDecls], ?_, ?_⟩⟩
    · exact Traced.result_mapM_eq_ok.2 (by simp [hread])
    · rw [Traced.mapError, hm]
      rfl
  · rw [ClassRegistry.names, (Model.result_ofFiles_eq_ok_iff.1 hm).1]
    rfl

/-- What `check` reports of the two classes is what `generate` does for each. -/
theorem check_reports_generate_pointDisk : ∃ m line, (loadModel pointDisk ["points.json"]).result = .ok m ∧
    m.classes.names = ["Point", "Line"] ∧
    CheckReport pointDisk (fun c => Invocation.run pointDisk none ⟨false, false, c⟩) m ["points.json"] {} line := by
  obtain ⟨m, hm, hnames⟩ := exists_loadModel_pointDisk
  obtain ⟨line, hreport⟩ := check_reports_generate pointDisk none false false ["points.json"] {} m hm
  exact ⟨m, line, hm, hnames, hreport⟩

end ClassSchema
