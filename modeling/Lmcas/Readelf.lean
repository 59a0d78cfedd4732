import Lmcas.Lib.Getopt
import Lmcas.Lib.Iteration
import Mathlib.Logic.Equiv.Basic

/-!
# The option parser of `readelf`

`parse_args` from `readelf.c`, with the tables of dump requests it fills.
`getopt_long`, `strtoul` and the functions of the DWARF printer and of the
demangler are parameters.  Memory does not run out.
-/

namespace Lmcas.Readelf

open Lmcas.Lib.CString
open Lmcas.Lib.Getopt
open Lmcas.Lib.Iteration

/-! ## Options -/

/-- What the program is configured with. -/
structure Build where
  enableLibctf : Bool
  supportDisassembly : Bool

/-- `OPTION_DEBUG_DUMP`. -/
@[match_pattern]
def optionDebugDump : OptVal := .enum 512

/-- `OPTION_DYN_SYMS`. -/
@[match_pattern]
def optionDynSyms : OptVal := .enum 513

/-- `OPTION_DWARF_DEPTH`. -/
@[match_pattern]
def optionDwarfDepth : OptVal := .enum 514

/-- `OPTION_DWARF_START`. -/
@[match_pattern]
def optionDwarfStart : OptVal := .enum 515

/-- `OPTION_DWARF_CHECK`. -/
@[match_pattern]
def optionDwarfCheck : OptVal := .enum 516

/-- `OPTION_CTF_DUMP`. -/
@[match_pattern]
def optionCtfDump : OptVal := .enum 517

/-- `OPTION_CTF_PARENT`. -/
@[match_pattern]
def optionCtfParent : OptVal := .enum 518

/-- `OPTION_CTF_SYMBOLS`. -/
@[match_pattern]
def optionCtfSymbols : OptVal := .enum 519

/-- `OPTION_CTF_STRINGS`. -/
@[match_pattern]
def optionCtfStrings : OptVal := .enum 520

/-- `OPTION_WITH_SYMBOL_VERSIONS`. -/
@[match_pattern]
def optionWithSymbolVersions : OptVal := .enum 521

/-- `OPTION_RECURSE_LIMIT`. -/
@[match_pattern]
def optionRecurseLimit : OptVal := .enum 522

/-- `OPTION_NO_RECURSE_LIMIT`. -/
@[match_pattern]
def optionNoRecurseLimit : OptVal := .enum 523

/-- `OPTION_NO_DEMANGLING`. -/
@[match_pattern]
def optionNoDemangling : OptVal := .enum 524

/-- `options`. -/
def options (build : Build) : List LongOption :=
  [⟨"arch-specific".toList, .no, .char 'A'⟩,
    ⟨"all".toList, .no, .char 'a'⟩,
    ⟨"demangle".toList, .optional, .char 'C'⟩,
    ⟨"archive-index".toList, .no, .char 'c'⟩,
    ⟨"use-dynamic".toList, .no, .char 'D'⟩,
    ⟨"dynamic".toList, .no, .char 'd'⟩,
    ⟨"headers".toList, .no, .char 'e'⟩,
    ⟨"section-groups".toList, .no, .char 'g'⟩,
    ⟨"help".toList, .no, .char 'H'⟩,
    ⟨"file-header".toList, .no, .char 'h'⟩,
    ⟨"histogram".toList, .no, .char 'I'⟩,
    ⟨"lint".toList, .no, .char 'L'⟩,
    ⟨"enable-checks".toList, .no, .char 'L'⟩,
    ⟨"program-headers".toList, .no, .char 'l'⟩,
    ⟨"segments".toList, .no, .char 'l'⟩,
    ⟨"full-section-name".toList, .no, .char 'N'⟩,
    ⟨"notes".toList, .no, .char 'n'⟩,
    ⟨"string-dump".toList, .required, .char 'p'⟩,
    ⟨"relocated-dump".toList, .required, .char 'R'⟩,
    ⟨"relocs".toList, .no, .char 'r'⟩,
    ⟨"section-headers".toList, .no, .char 'S'⟩,
    ⟨"sections".toList, .no, .char 'S'⟩,
    ⟨"symbols".toList, .no, .char 's'⟩,
    ⟨"syms".toList, .no, .char 's'⟩,
    ⟨"silent-truncation".toList, .no, .char 'T'⟩,
    ⟨"section-details".toList, .no, .char 't'⟩,
    ⟨"unwind".toList, .no, .char 'u'⟩,
    ⟨"version-info".toList, .no, .char 'V'⟩,
    ⟨"version".toList, .no, .char 'v'⟩,
    ⟨"wide".toList, .no, .char 'W'⟩,
    ⟨"hex-dump".toList, .required, .char 'x'⟩,
    ⟨"decompress".toList, .no, .char 'z'⟩,
    ⟨"no-demangle".toList, .no, optionNoDemangling⟩,
    ⟨"recurse-limit".toList, .no, optionRecurseLimit⟩,
    ⟨"no-recurse-limit".toList, .no, optionNoRecurseLimit⟩,
    ⟨"no-recursion-limit".toList, .no, optionNoRecurseLimit⟩,
    ⟨"dyn-syms".toList, .no, optionDynSyms⟩,
    ⟨"debug-dump".toList, .optional, optionDebugDump⟩,
    ⟨"dwarf-depth".toList, .required, optionDwarfDepth⟩,
    ⟨"dwarf-start".toList, .required, optionDwarfStart⟩,
    ⟨"dwarf-check".toList, .no, optionDwarfCheck⟩] ++
    if build.enableLibctf then
      [⟨"ctf".toList, .required, optionCtfDump⟩,
        ⟨"ctf-symbols".toList, .required, optionCtfSymbols⟩,
        ⟨"ctf-strings".toList, .required, optionCtfStrings⟩,
        ⟨"ctf-parent".toList, .required, optionCtfParent⟩]
    else []

/-! ## Variables -/

/-- `dump_type`, the flags of the dumps that a section is wanted in. -/
abbrev DumpType := BitVec 8

/-- `HEX_DUMP`, for `-x`. -/
def hexDump : DumpType := 1

/-- `DISASS_DUMP`, for `-i`. -/
def disassDump : DumpType := 2

/-- `STRING_DUMP`, for `-p`. -/
def stringDump : DumpType := 8

/-- `RELOC_DUMP`, for `-R`. -/
def relocDump : DumpType := 16

/-- `CTF_DUMP`, for `--ctf`. -/
def ctfDump : DumpType := 32

/-- A `struct dump_data`: the flags of the first `num_dump_sects` sections. -/
abbrev DumpData := List DumpType

/-- The places where there is a `struct dump_data`: the variable `cmdline`,
and the member of a file that is being shown. -/
inductive DumpPtr where
  | cmdline
  | filedata (index : Nat)
deriving DecidableEq, Repr

/-- The option variables.  A `bfd_boolean` is an `int`. -/
structure Globals where
  doDynamic : Int
  doSyms : Int
  doDynSyms : Int
  doReloc : Int
  doSections : Int
  doSectionGroups : Int
  doSectionDetails : Int
  doSegments : Int
  doUnwind : Int
  doUsingDynamic : Int
  doHeader : Int
  doDump : Int
  doVersion : Int
  doHistogram : Int
  doDebugging : Int
  doCtf : Int
  doArch : Int
  doNotes : Int
  doArchiveIndex : Int
  checkAll : Int
  decompressDumps : Int
  doNotShowSymbolTruncation : Int
  doDemangle : Int
  doWide : Int
  doChecks : Int
  demangleFlags : BitVec 32
  dumpCtfParentName : Option Word
  dumpCtfSymtabName : Option Word
  dumpCtfStrtabName : Option Word
deriving DecidableEq, Repr

/-- The variables of the DWARF printer. -/
structure Dwarf (Selection : Type) where
  selection : Selection
  cutoffLevel : BitVec 32
  startDie : BitVec 64
  check : Int

/-- What is written to the standard error before the program goes on. -/
inductive Message where
  | unknownDemanglingStyle (name : Word)
  | invalidOption (c : Ret)
deriving DecidableEq, Repr

/-- The memory of the program. -/
structure World (Selection Style : Type) where
  getopt : State
  globals : Globals
  dumps : DumpPtr → DumpData
  dumpSectsByname : List (Word × DumpType)
  dwarf : Dwarf Selection
  style : Style
  messages : List Message

/-- Where `usage` prints: to the standard output with status 0, to the standard
error with status 1. -/
inductive Stream where
  | stdout
  | stderr
deriving DecidableEq, Repr

/-- How the process ends early, with the messages up to then. -/
inductive Exit where
  | usage (stream : Stream) (messages : List Message)
  | version (messages : List Message)
deriving DecidableEq, Repr

/-- The functions that are called.  `strtoul` returns the number and what is
left behind it. -/
structure Library (Selection Style : Type) where
  getoptLong : Word → List LongOption → State → Ret × State
  strtoul : Word → BitVec 64 × Word
  selectSectionsAll : Selection → Selection
  selectSectionsByLetters : Word → Selection → Selection
  selectSectionsByNames : Word → Selection → Selection
  nameToStyle : Word → Style
  isUnknownDemangling : Style → Bool
  setStyle : Style → Style → Style

/-- `DMGL_NO_RECURSE_LIMIT`. -/
def dmglNoRecurseLimit : BitVec 32 := 1 <<< 18

/-! ## Requests for dumps -/

/-- `request_dump_bynumber`: the table grows to hold the number. -/
def requestDumpBynumber (data : DumpData) (number : Nat) (type : DumpType) :
    DumpData :=
  let table :=
    if number ≥ data.length then
      data ++ List.replicate (number + 1 - data.length) 0
    else data
  table.modify number (· ||| type)

section

variable {Selection Style : Type} (library : Library Selection Style)
  (build : Build)

/-- The argument of an option that has one. -/
def argument (world : World Selection Style) : Word :=
  match world.getopt.optarg with
  | none => []
  | some optarg => optarg.text

/-- `request_dump_byname`: the name goes to the front of the list. -/
def requestDumpByname (name : Word) (type : DumpType)
    (world : World Selection Style) : World Selection Style :=
  { world with
    dumpSectsByname := (name, type) :: world.dumpSectsByname }

/-- `request_dump`: a numeral stands for a section's number, any other word for
its name. -/
def requestDump (dumpdata : DumpPtr) (type : DumpType)
    (world : World Selection Style) : World Selection Style :=
  let requested :=
    { world with
      globals :=
        { world.globals with doDump := world.globals.doDump + 1 } }
  let read := library.strtoul (argument world)
  let number := (read.1.truncate 32).toInt
  if read.2 = [] ∧ number ≥ 0 then
    { requested with
      dumps :=
        Function.update world.dumps dumpdata
          (requestDumpBynumber (world.dumps dumpdata) number.toNat type) }
  else requestDumpByname (argument world) type requested

/-! ## Pieces of the cases -/

/-- What a turn of the loop comes to. -/
abbrev Outcome (Selection Style : Type) :=
  Turn (World Selection Style) Exit

/-- `usage`, which does not return. -/
def usage (stream : Stream) (world : World Selection Style) : Exit :=
  .usage stream world.messages

/-- `error` of binutils: a message, and the program goes on. -/
def error (message : Message) (world : World Selection Style) :
    World Selection Style :=
  { world with messages := world.messages ++ [message] }

/-- An assignment to option variables. -/
def assign (change : Globals → Globals) (world : World Selection Style) :
    World Selection Style :=
  { world with globals := change world.globals }

/-- What a call of `getopt_long` leaves behind. -/
def setGetopt (getopt : State) (world : World Selection Style) :
    World Selection Style :=
  { world with getopt := getopt }

/-- A turn that changes the flags of the library of DWARF. -/
def setDwarf (change : Dwarf Selection → Dwarf Selection)
    (world : World Selection Style) : World Selection Style :=
  { world with dwarf := change world.dwarf }

/-- `cplus_demangle_set_style`. -/
def setDemanglingStyle (style : Style) (world : World Selection Style) :
    World Selection Style :=
  { world with style := library.setStyle style world.style }

/-! ## `parse_args` -/

/-- The `switch` of `parse_args`. -/
def parseArgsSwitch (dumpdata : DumpPtr) (c : Ret)
    (world : World Selection Style) : Outcome Selection Style :=
  match c with
  -- long options
  | .val (.char '\x00') => .again world
  | .val (.char 'H') => .exit (usage .stdout world)
  | .val (.char 'a') =>
      .again (assign (fun globals =>
        { globals with
          doSyms := 1
          doReloc := 1
          doUnwind := 1
          doDynamic := 1
          doHeader := 1
          doSections := 1
          doSectionGroups := 1
          doSegments := 1
          doVersion := 1
          doHistogram := 1
          doArch := 1
          doNotes := 1 }) world)
  | .val (.char 'g') =>
      .again (assign (fun globals =>
        { globals with doSectionGroups := 1 }) world)
  | .val (.char 't') | .val (.char 'N') =>
      .again (assign (fun globals =>
        { globals with doSections := 1, doSectionDetails := 1 }) world)
  | .val (.char 'e') =>
      .again (assign (fun globals =>
        { globals with doHeader := 1, doSections := 1, doSegments := 1 })
        world)
  | .val (.char 'A') =>
      .again (assign (fun globals => { globals with doArch := 1 }) world)
  | .val (.char 'D') =>
      .again (assign (fun globals =>
        { globals with doUsingDynamic := 1 }) world)
  | .val (.char 'r') =>
      .again (assign (fun globals => { globals with doReloc := 1 }) world)
  | .val (.char 'u') =>
      .again (assign (fun globals => { globals with doUnwind := 1 }) world)
  | .val (.char 'h') =>
      .again (assign (fun globals => { globals with doHeader := 1 }) world)
  | .val (.char 'l') =>
      .again (assign (fun globals => { globals with doSegments := 1 }) world)
  | .val (.char 's') =>
      .again (assign (fun globals => { globals with doSyms := 1 }) world)
  | .val (.char 'S') =>
      .again (assign (fun globals => { globals with doSections := 1 }) world)
  | .val (.char 'd') =>
      .again (assign (fun globals => { globals with doDynamic := 1 }) world)
  | .val (.char 'I') =>
      .again (assign (fun globals => { globals with doHistogram := 1 }) world)
  | .val (.char 'n') =>
      .again (assign (fun globals => { globals with doNotes := 1 }) world)
  | .val (.char 'c') =>
      .again (assign (fun globals =>
        { globals with doArchiveIndex := 1 }) world)
  | .val (.char 'L') =>
      .again (assign (fun globals => { globals with doChecks := 1 }) world)
  | .val (.char 'x') => .again (requestDump library dumpdata hexDump world)
  | .val (.char 'p') => .again (requestDump library dumpdata stringDump world)
  | .val (.char 'R') => .again (requestDump library dumpdata relocDump world)
  | .val (.char 'z') =>
      .again (assign (fun globals =>
        { globals with decompressDumps := 1 }) world)
  | .val (.char 'w') =>
      match world.getopt.optarg with
      | none =>
          .again (setDwarf (fun dwarf =>
            { dwarf with
              selection := library.selectSectionsAll dwarf.selection })
            (assign (fun globals =>
              { globals with doDump := 1, doDebugging := 1 }) world))
      | some optarg =>
          .again (setDwarf (fun dwarf =>
            { dwarf with
              selection :=
                library.selectSectionsByLetters optarg.text dwarf.selection })
            (assign (fun globals =>
              { globals with doDump := 1, doDebugging := 0 }) world))
  | .val optionDebugDump =>
      match world.getopt.optarg with
      | none =>
          .again (assign (fun globals =>
            { globals with doDump := 1, doDebugging := 1 }) world)
      | some optarg =>
          .again (setDwarf (fun dwarf =>
            { dwarf with
              selection :=
                library.selectSectionsByNames optarg.text dwarf.selection })
            (assign (fun globals =>
              { globals with doDump := 1, doDebugging := 0 }) world))
  | .val optionDwarfDepth =>
      .again (setDwarf (fun dwarf =>
        { dwarf with
          cutoffLevel := (library.strtoul (argument world)).1.truncate 32 })
        world)
  | .val optionDwarfStart =>
      .again (setDwarf (fun dwarf =>
        { dwarf with startDie := (library.strtoul (argument world)).1 }) world)
  | .val optionDwarfCheck =>
      .again (setDwarf (fun dwarf => { dwarf with check := 1 }) world)
  | .val optionCtfDump =>
      .again (requestDump library dumpdata ctfDump
        (assign (fun globals => { globals with doCtf := 1 }) world))
  | .val optionCtfSymbols =>
      .again (assign (fun globals =>
        { globals with dumpCtfSymtabName := some (argument world) }) world)
  | .val optionCtfStrings =>
      .again (assign (fun globals =>
        { globals with dumpCtfStrtabName := some (argument world) }) world)
  | .val optionCtfParent =>
      .again (assign (fun globals =>
        { globals with dumpCtfParentName := some (argument world) }) world)
  | .val optionDynSyms =>
      .again (assign (fun globals => { globals with doDynSyms := 1 }) world)
  | .val (.char 'i') =>
      if build.supportDisassembly then
        .again (requestDump library dumpdata disassDump world)
      else .exit (usage .stderr (error (.invalidOption c) world))
  | .val (.char 'v') => .exit (.version world.messages)
  | .val (.char 'V') =>
      .again (assign (fun globals => { globals with doVersion := 1 }) world)
  | .val (.char 'W') =>
      .again (assign (fun globals => { globals with doWide := 1 }) world)
  | .val (.char 'T') =>
      .again (assign (fun globals =>
        { globals with doNotShowSymbolTruncation := 1 }) world)
  | .val (.char 'C') =>
      let demangling :=
        assign (fun globals => { globals with doDemangle := 1 }) world
      match world.getopt.optarg with
      | none => .again demangling
      | some optarg =>
          let style := library.nameToStyle optarg.text
          let told :=
            if library.isUnknownDemangling style then
              error (.unknownDemanglingStyle optarg.text) demangling
            else demangling
          .again (setDemanglingStyle library style told)
  | .val optionNoDemangling =>
      .again (assign (fun globals => { globals with doDemangle := 0 }) world)
  | .val optionRecurseLimit =>
      .again (assign (fun globals =>
        { globals with
          demangleFlags := globals.demangleFlags &&& ~~~dmglNoRecurseLimit })
        world)
  | .val optionNoRecurseLimit =>
      .again (assign (fun globals =>
        { globals with
          demangleFlags := globals.demangleFlags ||| dmglNoRecurseLimit })
        world)
  -- ignored for backward compatibility
  | .val optionWithSymbolVersions => .again world
  | .unrecognized | .val (.char '?') => .exit (usage .stderr world)
  | _ => .exit (usage .stderr (error (.invalidOption c) world))

/-- A turn of the `while` loop. -/
def parseArgsBody (dumpdata : DumpPtr) (world : World Selection Style) :
    Outcome Selection Style :=
  let call := library.getoptLong
    "ACDHILNR:STVWacdeghi:lnp:rstuvw::x:z".toList (options build) world.getopt
  let called := setGetopt call.2 world
  if call.1 = .eof then .leave called
  else parseArgsSwitch library build dumpdata call.1 called

/-- The check behind the loop, that something has been selected. -/
def parseArgsCheck (world : World Selection Style) :
    Ending (World Selection Style) Exit :=
  let globals := world.globals
  if globals.doDynamic = 0 ∧ globals.doSyms = 0 ∧ globals.doReloc = 0 ∧
      globals.doUnwind = 0 ∧ globals.doSections = 0 ∧ globals.doSegments = 0 ∧
      globals.doHeader = 0 ∧ globals.doDump = 0 ∧ globals.doVersion = 0 ∧
      globals.doHistogram = 0 ∧ globals.doDebugging = 0 ∧
      globals.doArch = 0 ∧ globals.doNotes = 0 ∧
      globals.doSectionGroups = 0 ∧ globals.doArchiveIndex = 0 ∧
      globals.doDynSyms = 0 then
    if globals.doChecks ≠ 0 then
      .left (assign (fun globals =>
        { globals with
          checkAll := 1
          doDynamic := 1
          doSyms := 1
          doReloc := 1
          doUnwind := 1
          doSections := 1
          doSegments := 1
          doHeader := 1
          doDump := 1
          doVersion := 1
          doHistogram := 1
          doDebugging := 1
          doArch := 1
          doNotes := 1
          doSectionGroups := 1
          doArchiveIndex := 1
          doDynSyms := 1 }) world)
    else .exited (usage .stderr world)
  else .left world

/-- `parse_args (dumpdata, argc, argv)`, started with this memory, ends so. -/
inductive ParseArgs (dumpdata : DumpPtr) :
    World Selection Style → Ending (World Selection Style) Exit → Prop where
  | tooFew {world : World Selection Style} (argc : world.getopt.argc < 2) :
      ParseArgs dumpdata world (.exited (usage .stderr world))
  | exits {world : World Selection Style} {outcome : Exit}
      (argc : ¬ world.getopt.argc < 2)
      (loop : Ends (parseArgsBody library build dumpdata) world
        (.exited outcome)) :
      ParseArgs dumpdata world (.exited outcome)
  | checks {world final : World Selection Style}
      (argc : ¬ world.getopt.argc < 2)
      (loop : Ends (parseArgsBody library build dumpdata) world
        (.left final)) :
      ParseArgs dumpdata world (parseArgsCheck final)

/-! ## Another table -/

/-- The memory with the tables at `cmdline` and at another place exchanged. -/
def World.exchange (dumpdata : DumpPtr) (world : World Selection Style) :
    World Selection Style :=
  { world with
    dumps := fun place => world.dumps (Equiv.swap .cmdline dumpdata place) }

/-- The two tables exchanged twice are as they were. -/
@[simp]
theorem exchange_exchange (dumpdata : DumpPtr)
    (world : World Selection Style) :
    (world.exchange dumpdata).exchange dumpdata = world := by
  simp [World.exchange]

/-- A table exchanged with itself is as it was. -/
@[simp]
theorem exchange_cmdline (world : World Selection Style) :
    world.exchange .cmdline = world := by
  simp [World.exchange]

/-- A change of the one table is a change of the other after the exchange. -/
theorem exchange_update (dumpdata : DumpPtr) (data : DumpData)
    (dumps : DumpPtr → DumpData) :
    (fun place => Function.update dumps dumpdata data
        (Equiv.swap .cmdline dumpdata place)) =
      Function.update
        (fun place => dumps (Equiv.swap .cmdline dumpdata place)) .cmdline
        data := by
  funext place
  by_cases here : place = .cmdline
  · subst here
    simp
  · have elsewhere : Equiv.swap .cmdline dumpdata place ≠ dumpdata := by
      intro same
      apply here
      rw [Equiv.swap_apply_eq_iff, Equiv.swap_apply_right] at same
      exact same
    rw [Function.update_of_ne elsewhere, Function.update_of_ne here]

section

variable (dumpdata : DumpPtr) (world : World Selection Style)

/-! Nothing but a request for a dump looks at the tables. -/

/-- The exchange leaves `getopt` alone. -/
@[simp]
theorem exchange_getopt :
    (world.exchange dumpdata).getopt = world.getopt := rfl

/-- It leaves the global variables alone. -/
@[simp]
theorem exchange_globals :
    (world.exchange dumpdata).globals = world.globals := rfl

/-- It leaves the messages alone. -/
@[simp]
theorem exchange_messages :
    (world.exchange dumpdata).messages = world.messages := rfl

/-- A flag may be set before the exchange or after it. -/
@[simp]
theorem assign_exchange (change : Globals → Globals) :
    assign change (world.exchange dumpdata) =
      (assign change world).exchange dumpdata := rfl

/-- So may the state of `getopt`. -/
@[simp]
theorem setGetopt_exchange (getopt : State) :
    setGetopt getopt (world.exchange dumpdata) =
      (setGetopt getopt world).exchange dumpdata := rfl

/-- So may the flags of DWARF. -/
@[simp]
theorem setDwarf_exchange (change : Dwarf Selection → Dwarf Selection) :
    setDwarf change (world.exchange dumpdata) =
      (setDwarf change world).exchange dumpdata := rfl

/-- So may the style of demangling. -/
@[simp]
theorem setDemanglingStyle_exchange (style : Style) :
    setDemanglingStyle library style (world.exchange dumpdata) =
      (setDemanglingStyle library style world).exchange dumpdata := rfl

/-- So may a message be added. -/
@[simp]
theorem error_exchange (message : Message) :
    error message (world.exchange dumpdata) =
      (error message world).exchange dumpdata := rfl

/-- `usage` prints the same for either table. -/
@[simp]
theorem usage_exchange (stream : Stream) :
    usage stream (world.exchange dumpdata) = usage stream world := rfl

/-- An option has the same argument for either table. -/
@[simp]
theorem argument_exchange :
    argument (world.exchange dumpdata) = argument world := rfl

/-- A request goes into the table it is made for: the exchange carries the one
into the other. -/
@[simp]
theorem requestDump_exchange (type : DumpType) :
    requestDump library .cmdline type (world.exchange dumpdata) =
      (requestDump library dumpdata type world).exchange dumpdata := by
  by_cases numeral : (library.strtoul (argument world)).2 = [] ∧
      ((library.strtoul (argument world)).1.truncate 32).toInt ≥ 0
  · rw [requestDump, requestDump, argument_exchange, if_pos numeral,
      if_pos numeral]
    simp only [World.exchange, exchange_update, Equiv.swap_apply_left]
  · rw [requestDump, requestDump, argument_exchange, if_neg numeral,
      if_neg numeral]
    rfl

/-- The cases differ in nothing but the place of the table. -/
theorem parseArgsSwitch_exchange (c : Ret) :
    parseArgsSwitch library build .cmdline c (world.exchange dumpdata) =
      (parseArgsSwitch library build dumpdata c world).map
        (World.exchange dumpdata) := by
  unfold parseArgsSwitch
  split
  all_goals try simp
  -- `-w`, `--debug-dump`, `-i` and `-C` are left
  · cases world.getopt.optarg <;> simp
  · cases world.getopt.optarg <;> simp
  · cases build.supportDisassembly <;> simp
  · cases world.getopt.optarg with
    | none => simp
    | some style =>
        cases unknown :
            library.isUnknownDemangling (library.nameToStyle style.text) <;>
          simp [unknown]

/-- A turn of the loop on the one table is a turn on the other, exchanged. -/
theorem parseArgsBody_exchange :
    parseArgsBody library build .cmdline (world.exchange dumpdata) =
      (parseArgsBody library build dumpdata world).map
        (World.exchange dumpdata) := by
  rw [parseArgsBody, parseArgsBody, exchange_getopt]
  simp only [setGetopt_exchange]
  split_ifs
  · rfl
  · exact parseArgsSwitch_exchange library build dumpdata _ _

/-- So is the test behind the loop. -/
theorem parseArgsCheck_exchange :
    parseArgsCheck (world.exchange dumpdata) =
      (parseArgsCheck world).map (World.exchange dumpdata) := by
  rw [parseArgsCheck, parseArgsCheck, exchange_globals]
  split_ifs <;> rfl

end

end

end Lmcas.Readelf
