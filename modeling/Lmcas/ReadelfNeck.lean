import Lmcas.Readelf

/-!
# The neck of `readelf`

`main` from `readelf.c` up to its neck.  So that the neck is in `main`, the
body of `parse_args` has been copied there, with dump requests that go to
`cmdline` and with the call of `klee_dump_memory` behind the loop.
`parse_args` itself is still there, and the copy does the same.
-/

namespace Lmcas.ReadelfNeck

open Lmcas.Lib.CString
open Lmcas.Lib.Getopt
open Lmcas.Lib.Iteration
open Lmcas.Readelf

variable {Selection Style : Type} (library : Library Selection Style)
  (build : Build)

/-! ## The copy in `main` -/

/-- The `switch` in `main`. -/
def mainSwitch (c : Ret)
    (world : World Selection Style) : Outcome Selection Style :=
  match c with
  -- long options
  | .val (.char '\x00') => .again world
  | .val (.char 'H') => .exit (usage .stdout world)
  | .val (.char 'a') =>
      .again (assign (fun globals =>
        { globals with
          doSyms := 1
          doReloc := 1
          doUnwind := 1
          doDynamic := 1
          doHeader := 1
          doSections := 1
          doSectionGroups := 1
          doSegments := 1
          doVersion := 1
          doHistogram := 1
          doArch := 1
          doNotes := 1 }) world)
  | .val (.char 'g') =>
      .again (assign (fun globals =>
        { globals with doSectionGroups := 1 }) world)
  | .val (.char 't') | .val (.char 'N') =>
      .again (assign (fun globals =>
        { globals with doSections := 1, doSectionDetails := 1 }) world)
  | .val (.char 'e') =>
      .again (assign (fun globals =>
        { globals with doHeader := 1, doSections := 1, doSegments := 1 })
        world)
  | .val (.char 'A') =>
      .again (assign (fun globals => { globals with doArch := 1 }) world)
  | .val (.char 'D') =>
      .again (assign (fun globals =>
        { globals with doUsingDynamic := 1 }) world)
  | .val (.char 'r') =>
      .again (assign (fun globals => { globals with doReloc := 1 }) world)
  | .val (.char 'u') =>
      .again (assign (fun globals => { globals with doUnwind := 1 }) world)
  | .val (.char 'h') =>
      .again (assign (fun globals => { globals with doHeader := 1 }) world)
  | .val (.char 'l') =>
      .again (assign (fun globals => { globals with doSegments := 1 }) world)
  | .val (.char 's') =>
      .again (assign (fun globals => { globals with doSyms := 1 }) world)
  | .val (.char 'S') =>
      .again (assign (fun globals => { globals with doSections := 1 }) world)
  | .val (.char 'd') =>
      .again (assign (fun globals => { globals with doDynamic := 1 }) world)
  | .val (.char 'I') =>
      .again (assign (fun globals => { globals with doHistogram := 1 }) world)
  | .val (.char 'n') =>
      .again (assign (fun globals => { globals with doNotes := 1 }) world)
  | .val (.char 'c') =>
      .again (assign (fun globals =>
        { globals with doArchiveIndex := 1 }) world)
  | .val (.char 'L') =>
      .again (assign (fun globals => { globals with doChecks := 1 }) world)
  | .val (.char 'x') => .again (requestDump library .cmdline hexDump world)
  | .val (.char 'p') => .again (requestDump library .cmdline stringDump world)
  | .val (.char 'R') => .again (requestDump library .cmdline relocDump world)
  | .val (.char 'z') =>
      .again (assign (fun globals =>
        { globals with decompressDumps := 1 }) world)
  | .val (.char 'w') =>
      match world.getopt.optarg with
      | none =>
          .again (setDwarf (fun dwarf =>
            { dwarf with
              selection := library.selectSectionsAll dwarf.selection })
            (assign (fun globals =>
              { globals with doDump := 1, doDebugging := 1 }) world))
      | some optarg =>
          .again (setDwarf (fun dwarf =>
            { dwarf with
              selection :=
                library.selectSectionsByLetters optarg.text dwarf.selection })
            (assign (fun globals =>
              { globals with doDump := 1, doDebugging := 0 }) world))
  | .val optionDebugDump =>
      match world.getopt.optarg with
      | none =>
          .again (assign (fun globals =>
            { globals with doDump := 1, doDebugging := 1 }) world)
      | some optarg =>
          .again (setDwarf (fun dwarf =>
            { dwarf with
              selection :=
                library.selectSectionsByNames optarg.text dwarf.selection })
            (assign (fun globals =>
              { globals with doDump := 1, doDebugging := 0 }) world))
  | .val optionDwarfDepth =>
      .again (setDwarf (fun dwarf =>
        { dwarf with
          cutoffLevel := (library.strtoul (argument world)).1.truncate 32 })
        world)
  | .val optionDwarfStart =>
      .again (setDwarf (fun dwarf =>
        { dwarf with startDie := (library.strtoul (argument world)).1 }) world)
  | .val optionDwarfCheck =>
      .again (setDwarf (fun dwarf => { dwarf with check := 1 }) world)
  | .val optionCtfDump =>
      .again (requestDump library .cmdline ctfDump
        (assign (fun globals => { globals with doCtf := 1 }) world))
  | .val optionCtfSymbols =>
      .again (assign (fun globals =>
        { globals with dumpCtfSymtabName := some (argument world) }) world)
  | .val optionCtfStrings =>
      .again (assign (fun globals =>
        { globals with dumpCtfStrtabName := some (argument world) }) world)
  | .val optionCtfParent =>
      .again (assign (fun globals =>
        { globals with dumpCtfParentName := some (argument world) }) world)
  | .val optionDynSyms =>
      .again (assign (fun globals => { globals with doDynSyms := 1 }) world)
  | .val (.char 'i') =>
      if build.supportDisassembly then
        .again (requestDump library .cmdline disassDump world)
      else .exit (usage .stderr (error (.invalidOption c) world))
  | .val (.char 'v') => .exit (.version world.messages)
  | .val (.char 'V') =>
      .again (assign (fun globals => { globals with doVersion := 1 }) world)
  | .val (.char 'W') =>
      .again (assign (fun globals => { globals with doWide := 1 }) world)
  | .val (.char 'T') =>
      .again (assign (fun globals =>
        { globals with doNotShowSymbolTruncation := 1 }) world)
  | .val (.char 'C') =>
      let demangling :=
        assign (fun globals => { globals with doDemangle := 1 }) world
      match world.getopt.optarg with
      | none => .again demangling
      | some optarg =>
          let style := library.nameToStyle optarg.text
          let told :=
            if library.isUnknownDemangling style then
              error (.unknownDemanglingStyle optarg.text) demangling
            else demangling
          .again (setDemanglingStyle library style told)
  | .val optionNoDemangling =>
      .again (assign (fun globals => { globals with doDemangle := 0 }) world)
  | .val optionRecurseLimit =>
      .again (assign (fun globals =>
        { globals with
          demangleFlags := globals.demangleFlags &&& ~~~dmglNoRecurseLimit })
        world)
  | .val optionNoRecurseLimit =>
      .again (assign (fun globals =>
        { globals with
          demangleFlags := globals.demangleFlags ||| dmglNoRecurseLimit })
        world)
  -- ignored for backward compatibility
  | .val optionWithSymbolVersions => .again world
  | .unrecognized | .val (.char '?') => .exit (usage .stderr world)
  | _ => .exit (usage .stderr (error (.invalidOption c) world))

/-- A turn of the `while` loop in `main`. -/
def mainBody (world : World Selection Style) : Outcome Selection Style :=
  let call := library.getoptLong
    "ACDHILNR:STVWacdeghi:lnp:rstuvw::x:z".toList (options build) world.getopt
  let called := setGetopt call.2 world
  if call.1 = .eof then .leave called
  else mainSwitch library build call.1 called

/-- `klee_dump_memory`, whose body is empty. -/
def kleeDumpMemory (world : World Selection Style) : World Selection Style :=
  world

/-- The check behind the neck. -/
def mainCheck (world : World Selection Style) :
    Ending (World Selection Style) Exit :=
  let globals := world.globals
  if globals.doDynamic = 0 ∧ globals.doSyms = 0 ∧ globals.doReloc = 0 ∧
      globals.doUnwind = 0 ∧ globals.doSections = 0 ∧ globals.doSegments = 0 ∧
      globals.doHeader = 0 ∧ globals.doDump = 0 ∧ globals.doVersion = 0 ∧
      globals.doHistogram = 0 ∧ globals.doDebugging = 0 ∧
      globals.doArch = 0 ∧ globals.doNotes = 0 ∧
      globals.doSectionGroups = 0 ∧ globals.doArchiveIndex = 0 ∧
      globals.doDynSyms = 0 then
    if globals.doChecks ≠ 0 then
      .left (assign (fun globals =>
        { globals with
          checkAll := 1
          doDynamic := 1
          doSyms := 1
          doReloc := 1
          doUnwind := 1
          doSections := 1
          doSegments := 1
          doHeader := 1
          doDump := 1
          doVersion := 1
          doHistogram := 1
          doDebugging := 1
          doArch := 1
          doNotes := 1
          doSectionGroups := 1
          doArchiveIndex := 1
          doDynSyms := 1 }) world)
    else .exited (usage .stderr world)
  else .left world

/-- The copy in `main`, started with this memory, ends so. -/
inductive MainParses :
    World Selection Style → Ending (World Selection Style) Exit → Prop where
  | tooFew {world : World Selection Style} (argc : world.getopt.argc < 2) :
      MainParses world (.exited (usage .stderr world))
  | exits {world : World Selection Style} {outcome : Exit}
      (argc : ¬ world.getopt.argc < 2)
      (loop : Ends (mainBody library build) world (.exited outcome)) :
      MainParses world (.exited outcome)
  | checks {world final : World Selection Style}
      (argc : ¬ world.getopt.argc < 2)
      (loop : Ends (mainBody library build) world (.left final)) :
      MainParses world (mainCheck (kleeDumpMemory final))

/-! ## The copy is one -/

/-- The cases are those of `parse_args`, with `cmdline` for its argument. -/
theorem mainSwitch_eq (c : Ret) (world : World Selection Style) :
    mainSwitch library build c world =
      parseArgsSwitch library build .cmdline c world := by
  rfl

/-- A turn of the loop in `main` is a turn of the loop in `parse_args`, on
`cmdline`. -/
theorem mainBody_eq (world : World Selection Style) :
    mainBody library build world =
      parseArgsBody library build .cmdline world := by
  rw [mainBody, parseArgsBody]
  split_ifs
  · rfl
  · exact mainSwitch_eq library build _ _

/-- The neck between the loop and the test changes nothing that the test
reads. -/
theorem mainCheck_eq (world : World Selection Style) :
    mainCheck (kleeDumpMemory world) = parseArgsCheck world := by
  rfl

section

variable {library : Library Selection Style} {build : Build}
  {world : World Selection Style} {ending : Ending (World Selection Style) Exit}

/-- What `parse_args` does with a table, the copy does with `cmdline`. -/
theorem mainParses_of_parseArgs {dumpdata : DumpPtr}
    (parses : ParseArgs library build dumpdata world ending) :
    MainParses library build (world.exchange dumpdata)
      (ending.map (World.exchange dumpdata)) := by
  have turns (state : World Selection Style) :
      mainBody library build (state.exchange dumpdata) =
        (parseArgsBody library build dumpdata state).map
          (World.exchange dumpdata) := by
    rw [mainBody_eq, parseArgsBody_exchange]
  cases parses with
  | tooFew argc => exact .tooFew argc
  | exits argc loop => exact .exits argc (loop.map turns)
  | checks argc loop =>
      rw [← parseArgsCheck_exchange, ← mainCheck_eq]
      exact .checks argc (loop.map turns)

/-- What the copy does with `cmdline`, `parse_args` does with any table in its
place. -/
theorem parseArgs_of_mainParses (dumpdata : DumpPtr)
    (parses : MainParses library build world ending) :
    ParseArgs library build dumpdata (world.exchange dumpdata)
      (ending.map (World.exchange dumpdata)) := by
  have turns (state : World Selection Style) :
      parseArgsBody library build dumpdata (state.exchange dumpdata) =
        (mainBody library build state).map (World.exchange dumpdata) := by
    have there := parseArgsBody_exchange library build dumpdata
      (state.exchange dumpdata)
    rw [exchange_exchange] at there
    rw [mainBody_eq, there, Turn.map_map]
    simp
  cases parses with
  | tooFew argc => exact .tooFew argc
  | exits argc loop => exact .exits argc (loop.map turns)
  | checks argc loop =>
      rw [mainCheck_eq, ← parseArgsCheck_exchange]
      exact .checks argc (loop.map turns)

end

/--
The copy of the option parser in `main` ends exactly as
`parse_args (&cmdline, argc, argv)` does, with the same memory.
-/
theorem mainParses_iff (world : World Selection Style)
    (ending : Ending (World Selection Style) Exit) :
    MainParses library build world ending ↔
      ParseArgs library build .cmdline world ending := by
  have unchanged : ending.map (World.exchange .cmdline) = ending := by
    cases ending <;> simp [Ending.map]
  constructor
  · intro parses
    have there := parseArgs_of_mainParses .cmdline parses
    rwa [exchange_cmdline, unchanged] at there
  · intro parses
    have there := mainParses_of_parseArgs parses
    rwa [exchange_cmdline, unchanged] at there

end Lmcas.ReadelfNeck
