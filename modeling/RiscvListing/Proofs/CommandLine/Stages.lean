import RiscvListing.CommandLine.Run
import RiscvListing.Proofs.Disk.Path

namespace RiscvListing

theorem fromUTF8?_utf8 (text : String) : String.fromUTF8? ⟨utf8 text⟩ = some text := by
  have valid : ByteArray.IsValidUTF8 ⟨utf8 text⟩ := text.isValidUTF8
  rw [String.fromUTF8?, dif_pos valid]
  rfl

theorem utf8_of_fromUTF8? {bytes : Bytes} {text : String}
    (decoded : String.fromUTF8? ⟨bytes⟩ = some text) : utf8 text = bytes := by
  rw [String.fromUTF8?] at decoded
  split at decoded
  · cases decoded
    rfl
  · cases decoded

theorem Config.ofBytes_utf8 (text : String) :
    ofBytes (utf8 text) = (ofText text).mapError .text := by
  rw [ofBytes, fromUTF8?_utf8]

theorem Config.ofBytes_of_ne_utf8 {bytes : Bytes} (notText : ∀ text, utf8 text ≠ bytes) :
    ofBytes bytes = .error (.file .notText) := by
  cases decoded : String.fromUTF8? ⟨bytes⟩ with
  | none => rw [ofBytes, decoded]
  | some text => exact absurd (utf8_of_fromUTF8? decoded) (notText text)

namespace CommandLine

section Bind

variable {ε α β : Type} {first : Except ε α}

theorem bind_of_eq_ok {value : α} (ended : first = .ok value) (next : α → Except ε β) :
    first >>= next = next value := by
  rw [ended]
  rfl

theorem bind_of_eq_error {error : ε} (ended : first = .error error) (next : α → Except ε β) :
    first >>= next = .error error := by
  rw [ended]
  rfl

end Bind

namespace Options

/-- What the options make of a configuration. -/
def overrule (options : Options) (config : Config) : Config :=
  { config with
    strict := if options.lenient then false else config.strict
    emitSymtab := if options.noSymtab then false else config.emitSymtab }

/-- The configuration that a run works with. -/
inductive Effective (options : Options) (disk : Disk) : Config → Prop where
  | standard (absent : options.config = none) :
    Effective options disk (options.overrule .standard)
  | file {path text : String} {config : Config} (given : options.config = some path)
    (read : disk.read path = .ok (utf8 text)) (parsed : Config.ofText text = .ok config) :
    Effective options disk (options.overrule config)

/-- The bytes of the input, of which there are not too many. -/
structure Reads (options : Options) (disk : Disk) (config : Config) (bytes : Bytes) : Prop where
  effective : options.Effective disk config
  found : disk.find options.input = .ok (.file bytes)
  fits : bytes.size ≤ config.maxFileSize.toNat

/-- Everything that a run needs, and where it writes its report. -/
structure Completes (options : Options) (disk : Disk) (config : Config) (bytes : Bytes)
    (report : Report) (place : Place) : Prop extends options.Reads disk config bytes where
  listed : disassemble bytes config = .ok report
  writable : disk.writable options.output = .ok place

/-- The first thing that a run lacks. -/
inductive Stops (options : Options) (disk : Disk) : RunError → Prop where
  | unreadable {path : String} {fault : FileFault} (given : options.config = some path)
    (failed : disk.read path = .error fault) : Stops options disk (.config path (.file fault))
  | undecodable {path : String} {bytes : Bytes} (given : options.config = some path)
    (read : disk.read path = .ok bytes) (notText : ∀ text, utf8 text ≠ bytes) :
    Stops options disk (.config path (.file .notText))
  | malformed {path text : String} {fault : Json.Fault} (given : options.config = some path)
    (read : disk.read path = .ok (utf8 text)) (failed : Config.ofText text = .error fault) :
    Stops options disk (.config path (.text fault))
  | absent {config : Config} {fault : FileFault} (effective : options.Effective disk config)
    (failed : disk.find options.input = .error fault) :
    Stops options disk (.input options.input (.file fault))
  | large {config : Config} {node : Node} (effective : options.Effective disk config)
    (found : disk.find options.input = .ok node)
    (exceeds : config.maxFileSize.toNat < node.size) :
    Stops options disk (.input options.input (.tooLarge node.size config.maxFileSize.toNat))
  | unmapped {config : Config} {node : Node} {fault : FileFault}
    (effective : options.Effective disk config)
    (found : disk.find options.input = .ok node) (fits : node.size ≤ config.maxFileSize.toNat)
    (failed : node.mapped = .error fault) :
    Stops options disk (.input options.input (.file fault))
  | object {config : Config} {bytes : Bytes} {error : Elf.Error}
    (reads : options.Reads disk config bytes) (failed : disassemble bytes config = .error error) :
    Stops options disk (.object options.input error)
  | output {config : Config} {bytes : Bytes} {report : Report} {fault : FileFault}
    (reads : options.Reads disk config bytes) (listed : disassemble bytes config = .ok report)
    (failed : disk.writable options.output = .error fault) :
    Stops options disk (.output options.output fault)

variable {options : Options} {disk : Disk}

theorem settings_eq (options : Options) (disk : Disk) :
    options.settings disk.find =
      match options.config with
      | none => .ok (options.overrule .standard)
      | some path =>
        match disk.read path with
        | .error fault => .error (.config path (.file fault))
        | .ok bytes =>
          match Config.ofBytes bytes with
          | .error error => .error (.config path error)
          | .ok config => .ok (options.overrule config) := by
  have overruled (config : Config) :
      { config with
        strict := config.strict && !options.lenient
        emitSymtab := config.emitSymtab && !options.noSymtab } = options.overrule config := by
    rw [overrule]
    congr 1
    · cases options.lenient <;> simp
    · cases options.noSymtab <;> simp
  have reading (path : String) : disk.find path >>= Node.read = disk.read path := rfl
  rw [settings]
  simp only [overruled, reading]
  cases options.config with
  | none => rfl
  | some path =>
    dsimp only
    cases disk.read path with
    | error fault => rfl
    | ok bytes =>
      dsimp only
      cases Config.ofBytes bytes with
      | error error => rfl
      | ok config => rfl

theorem settings_of_effective {config : Config} (effective : options.Effective disk config) :
    options.settings disk.find = .ok config := by
  rw [settings_eq]
  cases effective with
  | standard absent => rw [absent]
  | file given read parsed =>
    simp only [given, read, Config.ofBytes_utf8, parsed]
    rfl

theorem load_of_reads {config : Config} {bytes : Bytes} (reads : options.Reads disk config bytes) :
    options.load config disk.find = .ok bytes := by
  have within : ¬config.maxFileSize.toNat < (Node.file bytes).size := Nat.not_lt.mpr reads.fits
  rw [load, reads.found, Input.load, if_neg within]
  rfl

theorem list_of_load_ok {config : Config} {bytes : Bytes}
    (settled : options.settings disk.find = .ok config)
    (loaded : options.load config disk.find = .ok bytes) :
    options.list disk.find = (disassemble bytes config).mapError (.object options.input) := by
  rw [list, bind_of_eq_ok settled, bind_of_eq_ok loaded]

theorem list_of_load_error {config : Config} {error : RunError}
    (settled : options.settings disk.find = .ok config)
    (failed : options.load config disk.find = .error error) :
    options.list disk.find = .error error := by
  rw [list, bind_of_eq_ok settled, bind_of_eq_error failed]

theorem list_of_reads {config : Config} {bytes : Bytes} (reads : options.Reads disk config bytes) :
    options.list disk.find = (disassemble bytes config).mapError (.object options.input) :=
  list_of_load_ok (settings_of_effective reads.effective) (load_of_reads reads)

theorem run_of_completes {config : Config} {bytes : Bytes} {report : Report} {place : Place}
    (completes : options.Completes disk config bytes report place) :
    options.run disk = .ok (report, disk.write place (utf8 report.text)) := by
  rw [run, list_of_reads completes.toReads, completes.listed, completes.writable]
  rfl

theorem run_of_list_error {error : RunError} (failed : options.list disk.find = .error error) :
    options.run disk = .error error :=
  bind_of_eq_error failed _

theorem run_of_settings_error {error : RunError}
    (failed : options.settings disk.find = .error error) : options.run disk = .error error :=
  run_of_list_error (bind_of_eq_error failed _)

theorem run_of_load_error {config : Config} {error : RunError}
    (settled : options.settings disk.find = .ok config)
    (failed : options.load config disk.find = .error error) : options.run disk = .error error :=
  run_of_list_error (list_of_load_error settled failed)

theorem run_of_stops {error : RunError} (stops : options.Stops disk error) :
    options.run disk = .error error := by
  cases stops with
  | unreadable given failed =>
    apply run_of_settings_error
    rw [settings_eq]
    simp only [given, failed]
  | undecodable given read notText =>
    apply run_of_settings_error
    rw [settings_eq]
    simp only [given, read, Config.ofBytes_of_ne_utf8 notText]
  | malformed given read failed =>
    apply run_of_settings_error
    rw [settings_eq]
    simp only [given, read, Config.ofBytes_utf8, failed]
    rfl
  | absent effective failed =>
    apply run_of_load_error (settings_of_effective effective)
    rw [load, failed]
    rfl
  | large effective found exceeds =>
    apply run_of_load_error (settings_of_effective effective)
    rw [load, found, Input.load, if_pos exceeds]
    rfl
  | unmapped effective found fits failed =>
    apply run_of_load_error (settings_of_effective effective)
    rw [load, found, Input.load, if_neg (Nat.not_lt.mpr fits), failed]
    rfl
  | object reads failed =>
    apply run_of_list_error
    rw [list_of_reads reads, failed]
    rfl
  | output reads listed failed =>
    rw [run, list_of_reads reads, listed, failed]
    rfl

theorem effective_or_stops (options : Options) (disk : Disk) :
    (∃ config, options.Effective disk config) ∨ ∃ error, options.Stops disk error := by
  cases given : options.config with
  | none => exact .inl ⟨_, .standard given⟩
  | some path =>
    cases read : disk.read path with
    | error fault => exact .inr ⟨_, .unreadable given read⟩
    | ok bytes =>
      by_cases decodable : ∃ text, utf8 text = bytes
      · obtain ⟨text, rfl⟩ := decodable
        cases parsed : Config.ofText text with
        | error fault => exact .inr ⟨_, .malformed given read parsed⟩
        | ok config => exact .inl ⟨_, .file given read parsed⟩
      · exact .inr ⟨_, .undecodable given read (not_exists.mp decodable)⟩

theorem reads_or_stops {config : Config} (effective : options.Effective disk config) :
    (∃ bytes, options.Reads disk config bytes) ∨ ∃ error, options.Stops disk error := by
  cases found : disk.find options.input with
  | error fault => exact .inr ⟨_, .absent effective found⟩
  | ok node =>
    by_cases fits : node.size ≤ config.maxFileSize.toNat
    · cases node with
      | file bytes => exact .inl ⟨bytes, effective, found, fits⟩
      | directory => exact .inr ⟨_, .unmapped effective found fits rfl⟩
    · exact .inr ⟨_, .large effective found (Nat.not_le.mp fits)⟩

theorem completes_or_stops (options : Options) (disk : Disk) :
    (∃ config bytes report place, options.Completes disk config bytes report place) ∨
      ∃ error, options.Stops disk error := by
  rcases effective_or_stops options disk with ⟨config, effective⟩ | stops
  · rcases reads_or_stops effective with ⟨bytes, reads⟩ | stops
    · cases listed : disassemble bytes config with
      | error error => exact .inr ⟨_, .object reads listed⟩
      | ok report =>
        cases writable : disk.writable options.output with
        | error fault => exact .inr ⟨_, .output reads listed writable⟩
        | ok place => exact .inl ⟨config, bytes, report, place, reads, listed, writable⟩
    · exact .inr stops
  · exact .inr stops

end Options

end CommandLine

end RiscvListing
