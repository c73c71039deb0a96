import RiscvListing.Proofs.Config.RoundTrip
import RiscvListing.Proofs.Report.CrossReference
import RiscvListing.Proofs.Report.Stream
import RiscvListing.Proofs.CommandLine.Stages

namespace RiscvListing

theorem Disk.write_write (disk : Disk) (place : Place) (first second : Bytes) :
    (disk.write place first).write place second = disk.write place second := by
  have same : ((disk.write place first).write place second).node =
      (disk.write place second).node := by
    funext other
    simp only [node_write]
    split
    · rfl
    · rfl
  exact congrArg (Disk.mk · disk.home) same

namespace CommandLine

inductive Phase where
  | starting
  | configured (config : Config)
  | mapped (config : Config) (input : Place)
  | listed (report : Report)
  | writing (report : Report) (output : Place) (rest : Bytes)
  | ended (result : Except RunError Report)

structure Session where
  phase : Phase
  disk : Disk

namespace Session

/-- A step of a run. The input is mapped and not copied: it is what stands at its place when it is
listed. The output is emptied first, and then it grows by pieces of any size. -/
inductive Step (options : Options) : Session → Session → Prop where
  | configure {disk : Disk} {config : Config}
    (settled : options.settings disk.find = .ok config) :
    Step options ⟨.starting, disk⟩ ⟨.configured config, disk⟩
  | misconfigure {disk : Disk} {error : RunError}
    (failed : options.settings disk.find = .error error) :
    Step options ⟨.starting, disk⟩ ⟨.ended (.error error), disk⟩
  | map {disk : Disk} {config : Config} {input : Place} {bytes : Bytes}
    (located : disk.locate options.input = .ok input)
    (loaded : options.load config disk.find = .ok bytes) :
    Step options ⟨.configured config, disk⟩ ⟨.mapped config input, disk⟩
  | refuse {disk : Disk} {config : Config} {error : RunError}
    (failed : options.load config disk.find = .error error) :
    Step options ⟨.configured config, disk⟩ ⟨.ended (.error error), disk⟩
  | list {disk : Disk} {config : Config} {input : Place} {bytes : Bytes} {report : Report}
    (there : disk.node input = some (.file bytes))
    (listed : disassemble bytes config = .ok report) :
    Step options ⟨.mapped config input, disk⟩ ⟨.listed report, disk⟩
  | reject {disk : Disk} {config : Config} {input : Place} {bytes : Bytes} {error : Elf.Error}
    (there : disk.node input = some (.file bytes))
    (failed : disassemble bytes config = .error error) :
    Step options ⟨.mapped config input, disk⟩
      ⟨.ended (.error (.object options.input error)), disk⟩
  | create {disk : Disk} {report : Report} {output : Place}
    (writable : disk.writable options.output = .ok output) :
    Step options ⟨.listed report, disk⟩
      ⟨.writing report output report.stream, disk.write output #[]⟩
  | forbid {disk : Disk} {report : Report} {fault : FileFault}
    (failed : disk.writable options.output = .error fault) :
    Step options ⟨.listed report, disk⟩
      ⟨.ended (.error (.output options.output fault)), disk⟩
  | append {disk : Disk} {report : Report} {output : Place} {written piece rest : Bytes}
    (there : disk.node output = some (.file written)) (more : piece ≠ #[]) :
    Step options ⟨.writing report output (piece ++ rest), disk⟩
      ⟨.writing report output rest, disk.write output (written ++ piece)⟩
  | close {disk : Disk} {report : Report} {output : Place} :
    Step options ⟨.writing report output #[], disk⟩ ⟨.ended (.ok report), disk⟩

inductive Reaches (options : Options) : Session → Session → Prop where
  | refl (session : Session) : Reaches options session session
  | next {first second third : Session} (step : Step options first second)
    (later : Reaches options second third) : Reaches options first third

def Ends (options : Options) (disk : Disk) (result : Except RunError Report) (changed : Disk) :
    Prop :=
  Reaches options ⟨.starting, disk⟩ ⟨.ended result, changed⟩

/-- What is true at each stage of a run that started on `disk`. The disk stays as it is until the
report is complete. -/
def Sound (options : Options) (disk : Disk) (session : Session) : Prop :=
  match session.phase with
  | .starting => session.disk = disk
  | .configured config => session.disk = disk ∧ options.settings disk.find = .ok config
  | .mapped config input =>
    session.disk = disk ∧ options.settings disk.find = .ok config ∧
      ∃ bytes, options.load config disk.find = .ok bytes ∧ disk.node input = some (.file bytes)
  | .listed report => session.disk = disk ∧ options.list disk.find = .ok report
  | .writing report output rest =>
    options.list disk.find = .ok report ∧ disk.writable options.output = .ok output ∧
      ∃ written, session.disk = disk.write output written ∧ written ++ rest = utf8 report.text
  | .ended (.error error) => session.disk = disk ∧ options.run disk = .error error
  | .ended (.ok report) => options.run disk = .ok (report, session.disk)

variable {options : Options} {disk : Disk}

theorem find_of_load {config : Config} {bytes : Bytes}
    (loaded : options.load config disk.find = .ok bytes) :
    disk.find options.input = .ok (.file bytes) := by
  unfold Options.load Input.load at loaded
  split at loaded
  next => cases loaded
  next node found =>
    split at loaded
    next => cases loaded
    next =>
      cases node with
      | file other =>
        cases loaded
        exact found
      | directory => cases loaded

theorem Sound.step {first second : Session} (sound : Sound options disk first)
    (step : Step options first second) : Sound options disk second := by
  cases step with
  | configure settled =>
    obtain rfl := sound
    exact ⟨rfl, settled⟩
  | misconfigure failed =>
    obtain rfl := sound
    exact ⟨rfl, Options.run_of_settings_error failed⟩
  | map located loaded =>
    obtain ⟨rfl, settled⟩ := sound
    obtain ⟨place, found, there⟩ := (Disk.find_eq_ok_iff _ _).mp (find_of_load loaded)
    cases located.symm.trans found
    exact ⟨rfl, settled, _, loaded, there⟩
  | refuse failed =>
    obtain ⟨rfl, settled⟩ := sound
    exact ⟨rfl, Options.run_of_load_error settled failed⟩
  | list there listed =>
    obtain ⟨rfl, settled, bytes, loaded, same⟩ := sound
    cases there.symm.trans same
    refine ⟨rfl, ?_⟩
    rw [Options.list_of_load_ok settled loaded, listed]
    rfl
  | reject there failed =>
    obtain ⟨rfl, settled, bytes, loaded, same⟩ := sound
    cases there.symm.trans same
    refine ⟨rfl, Options.run_of_list_error ?_⟩
    rw [Options.list_of_load_ok settled loaded, failed]
    rfl
  | create writable =>
    obtain ⟨rfl, listed⟩ := sound
    refine ⟨listed, writable, #[], rfl, ?_⟩
    rw [Array.empty_append, Report.stream_eq]
  | forbid failed =>
    obtain ⟨rfl, listed⟩ := sound
    refine ⟨rfl, ?_⟩
    rw [Options.run, bind_of_eq_ok listed, failed]
    rfl
  | append there more =>
    obtain ⟨listed, writable, written, rfl, whole⟩ := sound
    rw [Disk.node_write, if_pos rfl] at there
    cases there
    exact ⟨listed, writable, _, Disk.write_write _ _ _ _, by rw [Array.append_assoc, whole]⟩
  | close =>
    obtain ⟨listed, writable, written, rfl, whole⟩ := sound
    rw [Array.append_empty] at whole
    subst whole
    change options.run disk = _
    rw [Options.run, bind_of_eq_ok listed, writable]
    rfl

theorem Sound.reaches {first second : Session} (sound : Sound options disk first)
    (reaches : Reaches options first second) : Sound options disk second := by
  induction reaches with
  | refl => exact sound
  | next step _ ih => exact ih (sound.step step)

theorem Sound.progress {session : Session} (sound : Sound options disk session) :
    (∃ result changed, session = ⟨.ended result, changed⟩) ∨
      ∃ later, Step options session later := by
  obtain ⟨phase, current⟩ := session
  cases phase with
  | starting =>
    cases settled : options.settings current.find with
    | error error => exact .inr ⟨_, .misconfigure settled⟩
    | ok config => exact .inr ⟨_, .configure settled⟩
  | configured config =>
    cases loaded : options.load config current.find with
    | error error => exact .inr ⟨_, .refuse loaded⟩
    | ok bytes =>
      obtain ⟨place, located, -⟩ := (Disk.find_eq_ok_iff _ _).mp (find_of_load loaded)
      exact .inr ⟨_, .map located loaded⟩
  | mapped config input =>
    obtain ⟨rfl, -, bytes, -, there⟩ := sound
    cases listed : disassemble bytes config with
    | error error => exact .inr ⟨_, .reject there listed⟩
    | ok report => exact .inr ⟨_, .list there listed⟩
  | listed report =>
    cases writable : current.writable options.output with
    | error fault => exact .inr ⟨_, .forbid writable⟩
    | ok output => exact .inr ⟨_, .create writable⟩
  | writing report output rest =>
    obtain ⟨-, -, written, rfl, -⟩ := sound
    by_cases empty : rest = #[]
    · subst empty
      exact .inr ⟨_, .close⟩
    · have there : (disk.write output written).node output = some (.file written) := by
        rw [Disk.node_write, if_pos rfl]
      have step : Step options ⟨.writing report output (rest ++ #[]), disk.write output written⟩
          ⟨.writing report output #[],
            (disk.write output written).write output (written ++ rest)⟩ :=
        .append there empty
      rw [Array.append_empty] at step
      exact .inr ⟨_, step⟩
  | ended result => exact .inl ⟨result, current, rfl⟩

def remaining (session : Session) : Nat × Nat :=
  match session.phase with
  | .starting => (5, 0)
  | .configured _ => (4, 0)
  | .mapped _ _ => (3, 0)
  | .listed _ => (2, 0)
  | .writing _ _ rest => (1, rest.size)
  | .ended _ => (0, 0)

theorem remaining_lt {first second : Session} (step : Step options first second) :
    Prod.Lex (· < ·) (· < ·) second.remaining first.remaining := by
  cases step with
  | append there more =>
    refine .right 1 ?_
    rw [Array.size_append]
    exact Nat.lt_add_of_pos_left (Array.size_pos_iff.mpr more)
  | _ => exact .left _ _ (by decide)

theorem wellFounded_step (options : Options) :
    WellFounded fun later earlier => Step options earlier later :=
  Subrelation.wf remaining_lt (InvImage.wf remaining (Prod.lex Nat.lt_wfRel Nat.lt_wfRel).wf)

theorem Sound.ends {session : Session} (sound : Sound options disk session) :
    ∃ result changed, Reaches options session ⟨.ended result, changed⟩ := by
  induction session using (wellFounded_step options).induction with
  | _ session ih =>
    rcases sound.progress with ⟨result, changed, rfl⟩ | ⟨later, step⟩
    · exact ⟨result, changed, .refl _⟩
    · obtain ⟨result, changed, reached⟩ := ih later step (sound.step step)
      exact ⟨result, changed, .next step reached⟩

theorem sound_start (options : Options) (disk : Disk) : Sound options disk ⟨.starting, disk⟩ :=
  rfl

end Session

namespace Outcome

/-- The bytes are found at the end of the path, and nothing else has changed. -/
structure Wrote (outcome : Outcome) (disk : Disk) (path : String) (place : Place) (bytes : Bytes) :
    Prop where
  exit : outcome.exit = 0
  complaint : outcome.complaint = ""
  read : outcome.disk.read path = .ok bytes
  written : outcome.disk.node place = some (.file bytes)
  others : ∀ other, other ≠ place → outcome.disk.node other = disk.node other
  home : outcome.disk.home = disk.home

structure Failed (outcome : Outcome) (disk : Disk) (error : RunError) : Prop where
  exit : outcome.exit = 1
  complaint : outcome.complaint = error.text
  disk : outcome.disk = disk

end Outcome

section Run

variable {arguments : List String} {options : Options}
  (parsed : readArguments arguments = .ok (.list options)) (threshold : Log.Threshold)
  {disk : Disk}

include parsed

theorem wrote_of_completes {config : Config} {bytes : Bytes} {report : Report} {place : Place}
    (completes : options.Completes disk config bytes report place) :
    (run arguments threshold disk).Wrote disk options.output place (utf8 report.text) := by
  have done := Options.run_of_completes completes
  have changed : (run arguments threshold disk).disk =
      disk.write place (utf8 report.text) := by
    simp only [run, parsed, done]
  refine ⟨?_, ?_, ?_, ?_, ?_, ?_⟩
  · simp only [run, parsed, done]
  · simp only [run, parsed, done]
  · rw [changed]
    exact Disk.read_write completes.writable _
  · rw [changed, Disk.node_write, if_pos rfl]
  · intro other apart
    rw [changed, Disk.node_write, if_neg apart]
  · rw [changed]
    rfl

theorem failed_of_run_error {error : RunError} (failed : options.run disk = .error error) :
    (run arguments threshold disk).Failed disk error := by
  refine ⟨?_, ?_, ?_⟩
  all_goals simp only [run, parsed, failed]

theorem disk_eq_of_ends {result : Except RunError Report} {changed : Disk}
    (ends : Session.Ends options disk result changed) :
    changed = (run arguments threshold disk).disk ∧
      ((∃ report, result = .ok report) ↔ (run arguments threshold disk).exit = 0) := by
  have sound := (Session.sound_start options disk).reaches ends
  cases result with
  | error error =>
    obtain ⟨same, failed⟩ := sound
    have outcome := failed_of_run_error parsed threshold failed
    rw [outcome.exit, outcome.disk]
    exact ⟨same, by simp⟩
  | ok report =>
    have done : options.run disk = .ok (report, changed) := sound
    simp [run, parsed, done]

end Run

/-- A run either writes the whole report and nothing else, or it changes nothing, also where
several paths lead to one file. The same comes of it when it is done step by step. -/
theorem run_all_or_nothing {arguments : List String} {options : Options}
    (parsed : readArguments arguments = .ok (.list options)) (threshold : Log.Threshold)
    (disk : Disk) :
    (∀ {config bytes report place}, options.Completes disk config bytes report place →
      (run arguments threshold disk).Wrote disk options.output place (utf8 report.text)) ∧
    (∀ {error}, options.Stops disk error → (run arguments threshold disk).Failed disk error) ∧
    ((∃ config bytes report place, options.Completes disk config bytes report place) ∨
      ∃ error, options.Stops disk error) ∧
    (∃ result changed, Session.Ends options disk result changed) ∧
    (∀ result changed, Session.Ends options disk result changed →
      changed = (run arguments threshold disk).disk ∧
        ((∃ report, result = .ok report) ↔ (run arguments threshold disk).exit = 0)) := by
  refine ⟨?_, ?_, options.completes_or_stops disk, (Session.sound_start options disk).ends, ?_⟩
  · intro config bytes report place completes
    exact wrote_of_completes parsed threshold completes
  · intro error stops
    exact failed_of_run_error parsed threshold (Options.run_of_stops stops)
  · intro result changed ends
    exact disk_eq_of_ends parsed threshold ends

def codeOnly : Config :=
  ⟨4096, true, false⟩

def loopDisk : Disk :=
  .ofFiles [] [(["loop.elf"], wrappedLoop.bytes), (["code.json"], utf8 codeOnly.toText)]

/-- The listing is written over the file that was listed, to which another path leads, with the
standard settings and with those of a file. -/
theorem run_over_input :
    (readArguments ["loop.elf", "./loop.elf"] =
      .ok (.list ⟨"loop.elf", "./loop.elf", none, false, false, false⟩) ∧
    ∃ report, disassemble wrappedLoop.bytes .standard = .ok report ∧
      (run ["loop.elf", "./loop.elf"] (some .warn) loopDisk).Wrote loopDisk "./loop.elf"
        ["loop.elf"] (utf8 report.text)) ∧
    readArguments ["loop.elf", "-c", "code.json", "./loop.elf"] =
      .ok (.list ⟨"loop.elf", "./loop.elf", some "code.json", false, false, false⟩) ∧
    ∃ report, disassemble wrappedLoop.bytes codeOnly = .ok report ∧
      (run ["loop.elf", "-c", "code.json", "./loop.elf"] (some .warn) loopDisk).Wrote loopDisk
        "./loop.elf" ["loop.elf"] (utf8 report.text) := by
  have size : wrappedLoop.bytes.size < 4096 := by decide +kernel
  have found : loopDisk.find "loop.elf" = .ok (.file wrappedLoop.bytes) := rfl
  have writable : loopDisk.writable "./loop.elf" = .ok ["loop.elf"] := rfl
  have plain : readArguments ["loop.elf", "./loop.elf"] =
      .ok (.list ⟨"loop.elf", "./loop.elf", none, false, false, false⟩) := by
    cbv
  have configured : readArguments ["loop.elf", "-c", "code.json", "./loop.elf"] =
      .ok (.list ⟨"loop.elf", "./loop.elf", some "code.json", false, false, false⟩) := by
    cbv
  have listed := disassemble_layout wrappedLoop (by omega) (rfl : Config.standard.strict = true)
  have listedCode := disassemble_layout wrappedLoop (by omega) (rfl : codeOnly.strict = true)
  have limit : Config.standard.maxFileSize.toNat = 67108864 := rfl
  have limitCode : codeOnly.maxFileSize.toNat = 4096 := rfl
  have fits : wrappedLoop.bytes.size ≤ Config.standard.maxFileSize.toNat := by omega
  have fitsCode : wrappedLoop.bytes.size ≤ codeOnly.maxFileSize.toNat := by omega
  refine ⟨⟨plain, _, listed, ?_⟩, configured, _, listedCode, ?_⟩
  · exact (run_all_or_nothing plain (some .warn) loopDisk).1
      ⟨⟨.standard rfl, found, fits⟩, listed, writable⟩
  · exact (run_all_or_nothing configured (some .warn) loopDisk).1
      ⟨⟨.file rfl rfl (Config.ofText_toText codeOnly), found, fitsCode⟩, listedCode, writable⟩

end CommandLine

end RiscvListing
