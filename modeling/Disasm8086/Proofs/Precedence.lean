/-
Which settings are in force, and what a run comes to.

The settings have three sources: what is built in, a configuration
document, and the arguments. Arguments win over the document, and the
document over what is built in (`Settings.FollowFrom`). A style of numbers
that the document names has to be one of five, in capital or small letters
(`Document.NamesStyle`). The document is read from the text of one file,
never of two: a file that the arguments name takes the place of the
default one, also if it cannot be read (`Program.ConfigText`).

A run is all or nothing. It has a text to print if there are settings,
an input, its bytes, and an instruction at every step along them
(`Program.Succeeds`); then it prints this text and ends with zero. If
any of these is missing, it prints nothing, however far it got.

Nothing here depends on how command lines and documents are written. The
two functions that read them are given (`Program.Conventions`), and
nothing is assumed about them.

# The argument

Settings that are read from a document, with the arguments laid over them,
follow from the document. The other direction is uniqueness: what follows
from a document is settled by it (`Settings.FollowFrom.eq`), so settings
that were asked for are those that are found
(`Settings.readBy?_eq_some_iff`).
-/
import Disasm8086.Program
import Disasm8086.Proofs.FirstDifference
import Mathlib.Data.List.Basic

namespace Disasm8086

-- ================================================================ names

namespace ValueMode

/-- The names of the style in which numbers are decimal. -/
def IsIntegerName (name : String) : Prop :=
  Alike name "integer" ∨ Alike name "asinteger" ∨ Alike name "decimal"

/-- The names of the style in which numbers are hexadecimal. -/
def IsHexName (name : String) : Prop := Alike name "hex" ∨ Alike name "ashex"

section Names

variable {name : String}

/-- A name in lower case is found by putting the other one in lower case. -/
theorem map_toLower_eq_iff {known : String} (h : known.toList.map Char.toLower = known.toList) :
    name.toList.map Char.toLower = known.toList ↔ Alike name known := by
  rw [← sameLine_iff, sameLine, beq_iff_eq, h]

/-- The names that are looked for are the names of the decimal style. -/
theorem mem_integerNames_iff :
    name.toList.map Char.toLower ∈ ["integer".toList, "asinteger".toList, "decimal".toList]
      ↔ IsIntegerName name := by
  simp only [List.mem_cons, List.not_mem_nil, or_false, IsIntegerName]
  rw [map_toLower_eq_iff rfl, map_toLower_eq_iff rfl, map_toLower_eq_iff rfl]

theorem mem_hexNames_iff :
    name.toList.map Char.toLower ∈ ["hex".toList, "ashex".toList] ↔ IsHexName name := by
  simp only [List.mem_cons, List.not_mem_nil, or_false, IsHexName]
  rw [map_toLower_eq_iff rfl, map_toLower_eq_iff rfl]

/-- No name stands for both styles. -/
theorem IsHexName.not_isIntegerName (h : IsHexName name) : ¬ IsIntegerName name := by
  rw [← mem_hexNames_iff] at h
  rw [← mem_integerNames_iff]
  generalize name.toList.map Char.toLower = folded at h
  revert folded
  decide

/-- A name stands for the style whose name it is. -/
theorem ofName?_cases (name : String) :
    (IsIntegerName name ∧ ofName? name = some .integer)
      ∨ (IsHexName name ∧ ofName? name = some .hex)
      ∨ (¬ IsIntegerName name ∧ ¬ IsHexName name ∧ ofName? name = none) := by
  unfold ofName?
  by_cases hinteger : IsIntegerName name
  · exact .inl ⟨hinteger, if_pos (mem_integerNames_iff.mpr hinteger)⟩
  · dsimp only
    rw [if_neg (mt mem_integerNames_iff.mp hinteger)]
    by_cases hhex : IsHexName name
    · exact .inr (.inl ⟨hhex, if_pos (mem_hexNames_iff.mpr hhex)⟩)
    · exact .inr (.inr ⟨hinteger, hhex, if_neg (mt mem_hexNames_iff.mp hhex)⟩)

/-- A name selects hexadecimal numbers exactly if it is one of two. -/
theorem ofName?_eq_hex_iff : ofName? name = some .hex ↔ IsHexName name := by
  rcases ofName?_cases name with ⟨hinteger, h⟩ | ⟨hhex, h⟩ | ⟨-, hhex, h⟩
  · simpa [h] using fun hhex => hhex.not_isIntegerName hinteger
  · simpa [h] using hhex
  · simpa [h] using hhex

/-- A name stands for a style exactly if it is one of the five. -/
theorem exists_ofName?_iff :
    (∃ mode, ofName? name = some mode) ↔ IsIntegerName name ∨ IsHexName name := by
  rcases ofName?_cases name with ⟨hinteger, h⟩ | ⟨hhex, h⟩ | ⟨hinteger, hhex, h⟩
  · simp [h, hinteger]
  · simp [h, hhex]
  · simp [h, hinteger, hhex]

end Names

end ValueMode

-- ============================================================= settings

/-- The style that the document names, if it names one, is a style. -/
def Document.NamesStyle (document : Document) : Prop :=
  ∀ name, document.output.valueMode = some name →
    ValueMode.IsIntegerName name ∨ ValueMode.IsHexName name

namespace Settings

/-- The settings that a document and arguments ask for. -/
structure FollowFrom (s : Settings) (document : Document) (args : Arguments) : Prop where
  valueMode : s.valueMode = .hex ↔ args.hex = true ∨
    ∃ name, document.output.valueMode = some name ∧ ValueMode.IsHexName name
  verbose : s.verbose = true ↔ args.verbose = true ∨ document.log.verbose = true
  file : ∀ path, s.file = some path ↔
    args.file = some path ∨ args.file = none ∧ document.input.file = some path

/-- A document and arguments ask for one group of settings only. -/
theorem FollowFrom.eq {s s' : Settings} {document : Document} {args : Arguments}
    (h : s.FollowFrom document args) (h' : s'.FollowFrom document args) : s = s' := by
  have hmode : s.valueMode = .hex ↔ s'.valueMode = .hex := h.valueMode.trans h'.valueMode.symm
  have hverbose : s.verbose = true ↔ s'.verbose = true := h.verbose.trans h'.verbose.symm
  have hfile : s.file = s'.file := Option.ext fun path => (h.file path).trans (h'.file path).symm
  have hsame : s.valueMode = s'.valueMode := by
    cases hs : s.valueMode <;> cases hs' : s'.valueMode <;> simp_all
  obtain ⟨mode, verbose, file⟩ := s
  rw [Settings.mk.injEq]
  exact ⟨hsame, Bool.eq_iff_iff.mpr hverbose, hfile⟩

section Reading

variable {document : Document} {s : Settings}

/-- A style is found exactly if the name in the document stands for one. -/
theorem exists_valueModeOf?_iff :
    (∃ mode, valueModeOf? document.output = some mode) ↔ document.NamesStyle := by
  unfold valueModeOf? Document.NamesStyle
  cases document.output.valueMode with
  | none => simp
  | some name => simp [ValueMode.exists_ofName?_iff]

/-- The style found is hexadecimal exactly if the document says so. -/
theorem valueModeOf?_eq_hex_iff {mode : ValueMode} (h : valueModeOf? document.output = some mode) :
    mode = .hex ↔ ∃ name, document.output.valueMode = some name ∧ ValueMode.IsHexName name := by
  unfold valueModeOf? at h
  cases hname : document.output.valueMode with
  | none =>
      rw [hname] at h
      cases h
      simp
  | some name =>
      rw [hname] at h
      replace h : ValueMode.ofName? name = some mode := h
      simp [← ValueMode.ofName?_eq_hex_iff, h]

/-- Settings are read from the documents whose style is one. -/
theorem exists_ofDocument?_iff : (∃ s, ofDocument? document = some s) ↔ document.NamesStyle := by
  rw [← exists_valueModeOf?_iff]
  unfold ofDocument?
  cases valueModeOf? document.output <;> simp

/-- Arguments laid over what is read win, and otherwise it stands. -/
theorem followFrom_overlay (h : ofDocument? document = some s) (args : Arguments) :
    (s.overlay args).FollowFrom document args := by
  unfold ofDocument? at h
  cases hmode : valueModeOf? document.output with
  | none =>
      rw [hmode] at h
      cases h
  | some mode =>
      rw [hmode] at h
      cases h
      constructor
      case valueMode =>
        rw [← valueModeOf?_eq_hex_iff hmode, overlay]
        by_cases hhex : args.hex = true <;> simp [hhex]
      case verbose => rw [overlay, Bool.or_eq_true, or_comm]
      case file =>
        intro path
        rw [overlay, Option.or_eq_some_iff]

/-- The settings found are the settings asked for. -/
theorem readBy?_eq_some_iff {document? : String → Option Document} {text : String}
    {args : Arguments} :
    readBy? document? text args = some s ↔ ∃ document, document? text = some document
      ∧ document.NamesStyle ∧ s.FollowFrom document args := by
  unfold readBy?
  simp only [Option.bind_eq_bind, Option.bind_eq_some_iff]
  constructor
  · rintro ⟨document, hread, own, hown, hs⟩
    cases hs
    exact ⟨document, hread, exists_ofDocument?_iff.mp ⟨own, hown⟩, followFrom_overlay hown args⟩
  · rintro ⟨document, hread, hstyle, hfollow⟩
    obtain ⟨own, hown⟩ := exists_ofDocument?_iff.mpr hstyle
    have hs : own.overlay args = s := (followFrom_overlay hown args).eq hfollow
    exact ⟨document, hread, own, hown, congrArg some hs⟩

end Reading

end Settings

-- ============================================================= outcomes

namespace Program

/-- The configuration text that arguments lead to. If none is named and
there is none by default, it is empty. -/
inductive ConfigText (files : FileAccess Id) (args : Arguments) : String → Prop where
  | named {path text : String} {bytes : List UInt8} (hpath : args.configFile = some path)
      (hread : files.readFile path = .ok bytes) (htext : decodeText bytes = .ok text) :
      ConfigText files args text
  | byDefault {text : String} {bytes : List UInt8} (hpath : args.configFile = none)
      (hexists : files.pathExists defaultConfigFile = true)
      (hread : files.readFile defaultConfigFile = .ok bytes)
      (htext : decodeText bytes = .ok text) : ConfigText files args text
  | absent (hpath : args.configFile = none)
      (hexists : files.pathExists defaultConfigFile = false) : ConfigText files args ""

/-- The settings that the configuration text and the arguments ask for. -/
def InForce (given : Conventions) (files : FileAccess Id) (args : Arguments) (s : Settings) :
    Prop :=
  ∃ text document, ConfigText files args text ∧ given.document? text = some document
    ∧ document.NamesStyle ∧ s.FollowFrom document args

/-- There is an input, it can be read, and all of it decodes. -/
def Succeeds (given : Conventions) (files : FileAccess Id) (args : Arguments) (text : String) :
    Prop :=
  ∃ s path bytes, InForce given files args s ∧ s.file = some path
    ∧ files.readFile path = .ok bytes ∧ assembly bytes s.valueMode = .ok text

variable {given : Conventions} {files : FileAccess Id} {args : Arguments}

/-- A text has been read if there are bytes, and these are text. -/
theorem bind_decodeText_eq_ok_iff {contents : Except FileError (List UInt8)} {text : String} :
    contents.bind decodeText = .ok text
      ↔ ∃ bytes, contents = .ok bytes ∧ decodeText bytes = .ok text := by
  cases contents with
  | error cause => simp [Except.bind]
  | ok bytes => simp [Except.bind]

/-- The file that is named is read, whether there is one by default or not. -/
theorem readConfig_of_named {path : String} (h : args.configFile = some path) :
    Id.run (readConfig files args) = files.readFile path := by
  rw [readConfig, h]
  rfl

/-- The default file is read if it is there. -/
theorem readConfig_of_default (h : args.configFile = none)
    (hexists : files.pathExists defaultConfigFile = true) :
    Id.run (readConfig files args) = files.readFile defaultConfigFile := by
  rw [readConfig, h, hexists]
  rfl

theorem readConfig_of_absent (h : args.configFile = none)
    (hexists : files.pathExists defaultConfigFile = false) :
    Id.run (readConfig files args) = .ok [] := by
  rw [readConfig, h, hexists]
  rfl

/-- One file is read, and its text is the configuration. -/
theorem configText_iff {text : String} :
    (Id.run (readConfig files args)).bind decodeText = .ok text
      ↔ ConfigText files args text := by
  rw [bind_decodeText_eq_ok_iff]
  constructor
  · rintro ⟨bytes, hread, htext⟩
    cases hpath : args.configFile with
    | some path =>
        rw [readConfig_of_named hpath] at hread
        exact .named hpath hread htext
    | none =>
        rcases Bool.eq_false_or_eq_true (files.pathExists defaultConfigFile) with hexists | hexists
        · rw [readConfig_of_default hpath hexists] at hread
          exact .byDefault hpath hexists hread htext
        · rw [readConfig_of_absent hpath hexists] at hread
          cases hread
          cases htext
          exact .absent hpath hexists
  · intro h
    cases h with
    | named hpath hread htext => exact ⟨_, (readConfig_of_named hpath).trans hread, htext⟩
    | byDefault hpath hexists hread htext =>
        exact ⟨_, (readConfig_of_default hpath hexists).trans hread, htext⟩
    | absent hpath hexists => exact ⟨[], readConfig_of_absent hpath hexists, rfl⟩

/-- There are settings if there is a text from which they can be read. -/
theorem settings_eq_ok_iff {contents : Except FileError (List UInt8)} {s : Settings} :
    settings given contents args = .ok s ↔ ∃ text, contents.bind decodeText = .ok text
      ∧ Settings.readBy? given.document? text args = some s := by
  unfold settings
  cases contents.bind decodeText with
  | error cause => simp
  | ok text => cases hread : Settings.readBy? given.document? text args <;> simp [hread]

/-- The settings of a run are those in force. -/
theorem inForce_iff {s : Settings} :
    settings given (Id.run (readConfig files args)) args = .ok s
      ↔ InForce given files args s := by
  simp only [settings_eq_ok_iff, configText_iff, Settings.readBy?_eq_some_iff, InForce,
    exists_and_left]

section Running

variable (requested : Option Log.Filter)

/-- Without settings a run fails. -/
theorem runWith_of_settings_error {e : ConfigError}
    (h : settings given (Id.run (readConfig files args)) args = .error e) :
    Id.run (runWith given files requested args) = ⟨failure, "", e.report⟩ := by
  rw [runWith, Id.run_bind, h]
  rfl

theorem runWith_of_no_file {s : Settings}
    (h : settings given (Id.run (readConfig files args)) args = .ok s) (hfile : s.file = none) :
    Id.run (runWith given files requested args) = ⟨failure, "", noInputText⟩ := by
  rw [runWith, Id.run_bind, h]
  dsimp only
  rw [hfile]
  rfl

/-- With an input, its contents decide. -/
theorem runWith_of_file {s : Settings} {path : String}
    (h : settings given (Id.run (readConfig files args)) args = .ok s)
    (hfile : s.file = some path) :
    Id.run (runWith given files requested args)
      = outcome (filter requested s) s.valueMode path (Id.run (files.readFile path)) := by
  rw [runWith, Id.run_bind, h]
  dsimp only
  rw [hfile]
  rfl

/-- A run for which nothing is missing prints the text and ends with zero. -/
theorem runWith_of_succeeds {text : String} (h : Succeeds given files args text) :
    (Id.run (runWith given files requested args)).status = 0
      ∧ (Id.run (runWith given files requested args)).output = text ++ "\n" := by
  obtain ⟨s, path, bytes, hsettings, hfile, hread, htext⟩ := h
  have hcontents : Id.run (files.readFile path) = .ok bytes := hread
  rw [runWith_of_file requested (inForce_iff.mpr hsettings) hfile, outcome, hcontents,
    fileAssembly, htext]
  exact ⟨rfl, rfl⟩

/-- A run for which something is missing fails, and prints nothing. The
cases are the places at which it may be missing. -/
theorem runWith_of_not_succeeds (h : ¬ ∃ text, Succeeds given files args text) :
    (Id.run (runWith given files requested args)).status = failure
      ∧ (Id.run (runWith given files requested args)).output = "" := by
  cases hsettings : settings given (Id.run (readConfig files args)) args with
  | error e =>
      rw [runWith_of_settings_error requested hsettings]
      exact ⟨rfl, rfl⟩
  | ok s =>
      cases hfile : s.file with
      | none =>
          rw [runWith_of_no_file requested hsettings hfile]
          exact ⟨rfl, rfl⟩
      | some path =>
          rw [runWith_of_file requested hsettings hfile]
          cases hread : Id.run (files.readFile path) with
          | error cause => exact ⟨rfl, rfl⟩
          | ok bytes =>
              cases htext : assembly bytes s.valueMode with
              | error e =>
                  rw [outcome, fileAssembly, htext]
                  exact ⟨rfl, rfl⟩
              | ok text =>
                  have hinForce := inForce_iff.mp hsettings
                  exact absurd ⟨text, s, path, bytes, hinForce, hfile, hread, htext⟩ h

end Running

/-- A run is all or nothing, and its settings are those in force, however
command lines and documents are read. -/
theorem run_all_or_nothing (given : Conventions) (files : FileAccess Id)
    (requested : Option Log.Filter) {line : List String} {args : Arguments}
    (h : given.request line = .run args) :
    (∀ s, settings given (Id.run (readConfig files args)) args = .ok s
        ↔ InForce given files args s)
      ∧ ((Id.run (runBy given files requested line)).status = 0
          ↔ ∃ text, Succeeds given files args text)
      ∧ (∀ text, Succeeds given files args text →
          (Id.run (runBy given files requested line)).output = text ++ "\n")
      ∧ ((¬ ∃ text, Succeeds given files args text) →
          (Id.run (runBy given files requested line)).status = 255
            ∧ (Id.run (runBy given files requested line)).output = "") := by
  have hrun : runBy given files requested line = runWith given files requested args := by
    rw [runBy, h]
  rw [hrun]
  refine ⟨fun s => inForce_iff, ⟨fun hstatus => ?_, ?_⟩, ?_, ?_⟩
  · by_cases hsucceeds : ∃ text, Succeeds given files args text
    · exact hsucceeds
    · rw [(runWith_of_not_succeeds requested hsucceeds).1] at hstatus
      exact absurd hstatus (by decide)
  · rintro ⟨text, hsucceeds⟩
    exact (runWith_of_succeeds requested hsucceeds).1
  · intro text hsucceeds
    exact (runWith_of_succeeds requested hsucceeds).2
  · exact runWith_of_not_succeeds requested

/-- A file system with the given files, each under one path. -/
def filesOf (files : List (String × List UInt8)) : FileAccess Id where
  readFile path := (files.lookup path).elim (.error .noSuchFile) .ok
  pathExists path := (files.lookup path).isSome

/-- With a configuration by default that names an input and, in capital
letters, a style, a run without arguments prints the input in this style.
To name a configuration that is not there is a failure all the same, and
so is a style that is none. So is an input of which one instruction
decodes and the next does not. -/
theorem run_all_or_nothing_of_four_lines :
    ∃ files : FileAccess Id, Id.run (files.pathExists defaultConfigFile) = true
      ∧ (Id.run (run files none [])).output = "INT 0x21\n"
      ∧ (Id.run (run files none ["--config_file", "other", "code"])).status = 255
      ∧ (Id.run (run files none ["--config_file", "octal", "code"])).status = 255
      ∧ (Id.run (run files none ["broken"])).output = "" := by
  let files := filesOf [
    (defaultConfigFile, "[input]\nfile = 'code'\n[output]\nvalue_mode = 'HEX'".toUTF8.toList),
    ("octal", "output.value_mode = 'octal'".toUTF8.toList),
    ("code", [0xCD, 0x21]), ("broken", [0x90, 0x0F])]
  refine ⟨files, by decide, ?_, ?_, ?_, ?_⟩
  · have hparse : Conventions.standard.request [] = .run ⟨false, false, none, none⟩ := by decide
    obtain ⟨hsettings, -, houtput, -⟩ := run_all_or_nothing .standard files none hparse
    refine houtput "INT 0x21" ⟨⟨.hex, false, some "code"⟩, "code", [0xCD, 0x21], ?_, rfl, rfl, ?_⟩
    · exact (hsettings _).mp (by decide +kernel)
    · decide +kernel
  · have hparse : Conventions.standard.request ["--config_file", "other", "code"]
        = .run ⟨false, false, some "other", some "code"⟩ := by decide
    obtain ⟨hsettings, -, -, hfails⟩ := run_all_or_nothing .standard files none hparse
    refine (hfails ?_).1
    rintro ⟨text, s, path, bytes, hinForce, -⟩
    cases (hsettings s).mpr hinForce
  · have hparse : Conventions.standard.request ["--config_file", "octal", "code"]
        = .run ⟨false, false, some "octal", some "code"⟩ := by decide
    obtain ⟨hsettings, -, -, hfails⟩ := run_all_or_nothing .standard files none hparse
    refine (hfails ?_).1
    rintro ⟨text, s, path, bytes, hinForce, -⟩
    have hnone : settings .standard
        (Id.run (readConfig files ⟨false, false, some "octal", some "code"⟩))
        ⟨false, false, some "octal", some "code"⟩ = .error .malformed := by
      decide +kernel
    cases hnone.symm.trans ((hsettings s).mpr hinForce)
  · have hparse : Conventions.standard.request ["broken"]
        = .run ⟨false, false, none, some "broken"⟩ := by
      decide
    obtain ⟨hsettings, -, -, hfails⟩ := run_all_or_nothing .standard files none hparse
    refine (hfails ?_).2
    rintro ⟨text, s, path, bytes, hinForce, hfile, hread, htext⟩
    have hs : settings .standard (Id.run (readConfig files ⟨false, false, none, some "broken"⟩))
        ⟨false, false, none, some "broken"⟩ = .ok ⟨.hex, false, some "broken"⟩ := by
      decide +kernel
    cases hs.symm.trans ((hsettings s).mpr hinForce)
    cases hfile
    cases hread
    have hbroken : (assembly [0x90, 0x0F] .hex).isOk = false := by decide +kernel
    rw [htext] at hbroken
    cases hbroken

end Program

end Disasm8086
