import ArtRuntime.BinaryAnalyzer.CodeImage
import Mathlib.Logic.Function.Basic

/-! # The auto-fast-JNI classifier

`runtime/binary_analyzer/binary_analyzer_x86.cc`: `AnalyzeCFG(ptr)` walks the native
code of a method from its entry, one basic block at a time, keeping a backlog of
addresses still to walk, and answers `kFast` unless it met an unsupported
instruction, a backward jump, a recursive call or a budget overrun.

Blocks live in `cfg_bblock_list_` and point to one another; here a pointer to a
block is its id, which `CreateBBlock` makes its index in that list, and a null
code pointer is address `0`. A block keeps the length of each of its
instructions, the one thing of a `MachineInstruction` the analysis reads.
`num_of_bblocks_` is the length of `cfg_bblock_list_`: `CreateBBlock` is the only
place that changes either.

Every loop of the analysis takes a `fuel` argument; `none` means it ran out.
-/

namespace ArtRuntime.BinaryAnalyzer

def kCallDepthLimit : Nat := 3
def kBasicBlockLimit : Nat := 20
def kInstructionLimit : Nat := 100

/-- `ControlTransferType`, the classification of one instruction. -/
inductive ControlTransferType
  | kNone
  | kConditionalBranch
  | kUnconditionalBranch
  | kInterrupt
  | kCall
  | kUnknown
  | kIndirectCall
  | kIndirectJump
  | kReturn
  | kLock
  | kCycle
  deriving DecidableEq, Repr

inductive AnalysisResult
  | kFast
  | kHasLocks
  | kHasCycles
  | kHasInterrupts
  | kHasIndirectCalls
  | kHasIndirectJumps
  | kHasUnknownInstructions
  | kCallDepthLimitExceeded
  | kBasicBlockLimitExceeded
  | kInstructionLimitExceeded
  deriving DecidableEq, Repr

/-! ## Basic blocks and the graph -/

structure MachineBlock where
  predBblock : List Nat := []
  succBblock : List Nat := []
  instrs : List Nat := []
  isDummy : Bool := false
  startAddr : Nat := 0
  endAddr : Nat := 0
  functionStartAddr : Nat := 0
  deriving DecidableEq, Repr, Inhabited

namespace MachineBlock

def getInstrCnt (block : MachineBlock) : Nat :=
  block.instrs.length

/-- `SetStartAddr`: the first block to get a start takes it as its function start. -/
def setStartAddr (block : MachineBlock) (start : Nat) : MachineBlock :=
  { block with
    startAddr := start
    functionStartAddr := if block.functionStartAddr = 0 then start else block.functionStartAddr }

/-- The loop of `CopyInstruction` over the instructions of `from_bblock`, from the
address `ptr` of the first: those at `start` or after move, the others stay.
Returns the kept and the moved lengths. -/
def splitInstructions (start : Nat) : (ptr : Nat) → List Nat → List Nat × List Nat
  | _, [] => ([], [])
  | ptr, length :: rest =>
      let (kept, moved) := splitInstructions start (ptr + length) rest
      if ptr ≥ start then (kept, length :: moved) else (length :: kept, moved)

end MachineBlock

/-- The `CFGraph` state the analysis reads. -/
structure CFGraph where
  numOfInstrs : Nat := 0
  callDepth : Nat := 0
  state : AnalysisResult := .kFast
  cfgBblockList : List MachineBlock := []
  visitedBblockList : List Nat := []
  deriving Repr

namespace CFGraph

def block (cfg : CFGraph) (id : Nat) : MachineBlock :=
  cfg.cfgBblockList.getD id default

def modifyBlock (cfg : CFGraph) (id : Nat) (update : MachineBlock → MachineBlock) : CFGraph :=
  { cfg with cfgBblockList := cfg.cfgBblockList.modify id update }

def getBBlockCnt (cfg : CFGraph) : Nat :=
  cfg.cfgBblockList.length

def setState (cfg : CFGraph) (result : AnalysisResult) : CFGraph :=
  { cfg with state := result }

def isStillFast (cfg : CFGraph) : Bool :=
  cfg.state == .kFast

/-- `MachineBlock::AddPredBBlock`: a block with no function start yet takes its
predecessor's. -/
def addPredBBlock (cfg : CFGraph) (id pred : Nat) : CFGraph :=
  let predStart := (cfg.block pred).functionStartAddr
  cfg.modifyBlock id fun block =>
    { block with
      predBblock := if pred ∈ block.predBblock then block.predBblock else block.predBblock ++ [pred]
      functionStartAddr :=
        if block.functionStartAddr = 0 then predStart else block.functionStartAddr }

def addSuccBBlock (cfg : CFGraph) (id succ : Nat) : CFGraph :=
  cfg.modifyBlock id fun block =>
    { block with
      succBblock := if succ ∈ block.succBblock then block.succBblock else block.succBblock ++ [succ] }

def deletePredBBlock (cfg : CFGraph) (id pred : Nat) : CFGraph :=
  cfg.modifyBlock id fun block => { block with predBblock := block.predBblock.filter (· ≠ pred) }

def copySuccBBlockList (cfg : CFGraph) (id : Nat) (toCopy : List Nat) : CFGraph :=
  cfg.modifyBlock id fun block => { block with succBblock := block.succBblock ++ toCopy }

def clearSuccBBlockList (cfg : CFGraph) (id : Nat) : CFGraph :=
  cfg.modifyBlock id fun block => { block with succBblock := [] }

def setStartAddr (cfg : CFGraph) (id start : Nat) : CFGraph :=
  cfg.modifyBlock id (·.setStartAddr start)

def setEndAddr (cfg : CFGraph) (id endAddr : Nat) : CFGraph :=
  cfg.modifyBlock id fun block => { block with endAddr := endAddr }

def setDummy (cfg : CFGraph) (id : Nat) : CFGraph :=
  cfg.modifyBlock id fun block => { block with isDummy := true }

def addInstruction (cfg : CFGraph) (id length : Nat) : CFGraph :=
  cfg.modifyBlock id fun block => { block with instrs := block.instrs ++ [length] }

/-- `MachineBlock::CopyInstruction(from_bblock, start)`, called on block `id`. -/
def copyInstruction (cfg : CFGraph) (id fromBblock start : Nat) : CFGraph :=
  let source := cfg.block fromBblock
  let (kept, moved) := MachineBlock.splitInstructions start source.startAddr source.instrs
  (cfg.modifyBlock id fun block => { block with instrs := block.instrs ++ moved }).modifyBlock
    fromBblock fun block => { block with instrs := kept }

/-- `ChangePredecessors`: each block of the list trades one predecessor for another. -/
def changePredecessors (cfg : CFGraph) (bblockList : List Nat) (deleted added : Nat) : CFGraph :=
  bblockList.foldl (fun cfg id => (cfg.deletePredBBlock id deleted).addPredBBlock id added) cfg

def incBBlockCnt (cfg : CFGraph) : CFGraph :=
  if cfg.getBBlockCnt > kBasicBlockLimit then cfg.setState .kBasicBlockLimitExceeded else cfg

def increaseInstructionCnt (cfg : CFGraph) (amount : Nat) : CFGraph :=
  let cfg := { cfg with numOfInstrs := cfg.numOfInstrs + amount }
  if cfg.numOfInstrs > kInstructionLimit then cfg.setState .kInstructionLimitExceeded else cfg

def setCallDepth (cfg : CFGraph) (depth : Nat) : CFGraph :=
  let cfg := { cfg with callDepth := depth }
  if depth ≥ kCallDepthLimit then cfg.setState .kCallDepthLimitExceeded else cfg

/-- `CreateBBlock(predecessor_bb, function_start)`: the new block's id. -/
def createBBlock (cfg : CFGraph) (predecessor : Option Nat) (functionStart : Nat) :
    CFGraph × Nat :=
  let id := cfg.getBBlockCnt
  let created : MachineBlock := { functionStartAddr := functionStart }
  let cfg := { cfg with cfgBblockList := cfg.cfgBblockList ++ [created] }
  -- the constructor links the predecessor
  let cfg := match predecessor with
    | none => cfg
    | some pred => (cfg.addPredBBlock id pred).addSuccBBlock pred id
  (cfg.incBBlockCnt, id)

/-- `AddTuple`: record a block as visited, with its bounds, and count its instructions. -/
def addTuple (cfg : CFGraph) (id start endAddr : Nat) : CFGraph :=
  let cfg := (cfg.setStartAddr id start).setEndAddr id endAddr
  let cfg := { cfg with visitedBblockList := cfg.visitedBblockList ++ [id] }
  cfg.increaseInstructionCnt (cfg.block id).getInstrCnt

end CFGraph

/-! ## The call graph -/

inductive NodeState
  | kNotVisited
  | kInCurrentPath
  | kAlreadyChecked
  deriving DecidableEq, Repr

/-- `CallGraph`: the entries by address, each with its callees, and the first caller. -/
structure CallGraph where
  root : Option Nat := none
  entries : List (Nat × List Nat) := []
  deriving Repr

namespace CallGraph

def callees (graph : CallGraph) (entry : Nat) : List Nat :=
  (graph.entries.lookup entry).getD []

def getOrAddCallEntry (graph : CallGraph) (entryStartAddress : Nat) : CallGraph :=
  if (graph.entries.lookup entryStartAddress).isSome then graph
  else { graph with entries := graph.entries ++ [(entryStartAddress, [])] }

/-- `AddCall(caller, callee)`; the callees form a set. -/
def addCall (graph : CallGraph) (caller callee : Nat) : CallGraph :=
  let graph := (graph.getOrAddCallEntry caller).getOrAddCallEntry callee
  let graph := { graph with root := graph.root.or (some caller) }
  { graph with
    entries := graph.entries.map fun (entry, callees) =>
      if entry = caller ∧ callee ∉ callees then (entry, callees ++ [callee]) else (entry, callees) }

mutual

/-- `SubgraphCheckCycles(node)`: depth-first search for a node on the current path. -/
def subgraphCheckCycles (graph : CallGraph) :
    (fuel : Nat) → (Nat → NodeState) → Nat → Option (Bool × (Nat → NodeState))
  | 0, _, _ => none
  | fuel + 1, states, node =>
      match states node with
      | .kAlreadyChecked => some (false, states)
      | .kInCurrentPath => some (true, states)
      | .kNotVisited =>
          checkCallees graph fuel node (graph.callees node) (Function.update states node .kInCurrentPath)

/-- The loop of `SubgraphCheckCycles` over the callees of `node`. -/
def checkCallees (graph : CallGraph) :
    (fuel : Nat) → Nat → List Nat → (Nat → NodeState) → Option (Bool × (Nat → NodeState))
  | 0, _, _, _ => none
  | _ + 1, node, [], states => some (false, Function.update states node .kAlreadyChecked)
  | fuel + 1, node, child :: rest, states =>
      match subgraphCheckCycles graph fuel states child with
      | none => none
      | some (true, states) => some (true, states)
      | some (false, states) => checkCallees graph fuel node rest states

end

/-- `CallGraph::HasCycles`: a cycle reachable from the root. -/
def hasCycles (graph : CallGraph) (fuel : Nat) : Option Bool :=
  match graph.root with
  | none => some false
  | some root => (subgraphCheckCycles graph fuel (fun _ => .kNotVisited) root).map Prod.fst

end CallGraph

/-! ## The walk -/

/-- `BackLogDs`, a code path still to walk. -/
structure BackLogDs where
  predBb : Nat
  ptr : Nat
  succBb : Option Nat
  functionStart : Nat
  isFunctionStart : Bool
  callDepth : Nat
  deriving DecidableEq, Repr

/-- `ChangePredForBacklog`: the oldest entry coming from `oldPred` now comes from `newPred`. -/
def changePredForBacklog (oldPred newPred : Nat) : List BackLogDs → List BackLogDs
  | [] => []
  | entry :: rest =>
      if entry.predBb = oldPred then { entry with predBb := newPred } :: rest
      else entry :: changePredForBacklog oldPred newPred rest

/-- How the scan of `IsVisited` over the instructions of a block ends. -/
inductive SplitScan
  /-- an instruction ends at the address; the one before it starts at `prevInstr` -/
  | splitAt (prevInstr : Nat)
  /-- the address is inside an instruction: not visited -/
  | passed
  /-- the instructions ran out -/
  | exhausted
  deriving DecidableEq, Repr

/-- The scan of `IsVisited` for the instruction of a block that ends at `addr`. -/
def scanForSplit (addr currInstr : Nat) : List Nat → SplitScan
  | [] => .exhausted
  | length :: rest =>
      if currInstr + length = addr then .splitAt currInstr
      else if currInstr + length > addr then .passed
      else scanForSplit addr (currInstr + length) rest

/-- `AnalyzeInstruction`: the size of the instruction at `instr`, how it ends a
block and its target (the next address unless it is a direct branch or call);
the instruction is appended to `currBb`. `none` is the `-1` of a failed decode. -/
def analyzeInstruction (code : CodeImage) (cfg : CFGraph) (instr currBb : Nat) :
    Option (Nat × ControlTransferType × Nat × CFGraph) :=
  (code instr).map fun insn =>
    let cfg := cfg.addInstruction currBb insn.length
    let next := instr + insn.length
    match insn.kind with
    | .plain => (insn.length, .kNone, next, cfg)
    | .conditionalBranch target => (insn.length, .kConditionalBranch, target, cfg)
    | .directJmp target => (insn.length, .kUnconditionalBranch, target, cfg)
    | .directCall target => (insn.length, .kCall, target, cfg)
    | .ret => (insn.length, .kReturn, next, cfg)
    | .interrupt => (insn.length, .kInterrupt, next, cfg)
    | .indirectCall => (insn.length, .kIndirectCall, next, cfg)
    | .indirectJump => (insn.length, .kIndirectJump, next, cfg)
    | .invalid => (insn.length, .kUnknown, next, cfg)
    | .lockPrefixed => (insn.length, .kLock, next, cfg)
    | .repLoop => (insn.length, .kCycle, next, cfg)

namespace CFGraph

/-- The edges `IsVisited` adds from the block of a backlog entry to a visited
block; a call entry also links that block to the call's end block. -/
def linkVisited (cfg : CFGraph) (prevBblock : Nat) (succBblock : Option Nat) (target : Nat) :
    CFGraph :=
  let cfg := (cfg.addSuccBBlock prevBblock target).addPredBBlock target prevBblock
  if (cfg.block prevBblock).isDummy then
    match succBblock with
    | some succ => (cfg.addPredBBlock succ target).addSuccBBlock target succ
    -- a dummy predecessor always comes with the end block of its call
    | none => cfg
  else cfg

/-- The split of `IsVisited`: the block `bbToBeSplit` ends before `addr`, and a new
block takes its instructions from `addr` to `endAddr`. -/
def splitBlock (cfg : CFGraph) (backlog : List BackLogDs) (addr prevBblock : Nat)
    (succBblock : Option Nat) (bbToBeSplit prevInstr endAddr : Nat) :
    CFGraph × List BackLogDs :=
  let cfg := cfg.setEndAddr bbToBeSplit prevInstr
  let (cfg, newBb) := cfg.createBBlock none 0
  -- `succ_list` is a reference to the successors of the split block, so every
  -- use below reads them as they are then
  let cfg := cfg.clearSuccBBlockList bbToBeSplit
  let cfg := (cfg.addSuccBBlock bbToBeSplit newBb).addPredBBlock newBb bbToBeSplit
  let cfg := cfg.copySuccBBlockList newBb (cfg.block bbToBeSplit).succBblock
  let cfg := cfg.linkVisited prevBblock succBblock newBb
  let cfg := cfg.addTuple newBb addr endAddr
  let cfg := cfg.copyInstruction newBb bbToBeSplit addr
  let backlog := changePredForBacklog bbToBeSplit newBb backlog
  let cfg := cfg.changePredecessors (cfg.block bbToBeSplit).succBblock bbToBeSplit newBb
  let cfg := if prevBblock = bbToBeSplit then
      (cfg.addPredBBlock newBb newBb).addSuccBBlock newBb newBb
    else cfg
  (cfg, backlog)

/-- The loop of `IsVisited(addr, prev_bblock, succ_bblock, backlog, is_function_start)`
over the visited blocks. -/
def isVisitedLoop (addr prevBblock : Nat) (succBblock : Option Nat) (isFunctionStart : Bool) :
    List Nat → CFGraph → List BackLogDs → Bool × CFGraph × List BackLogDs
  | [], cfg, backlog => (false, cfg, backlog)
  | currentBb :: rest, cfg, backlog =>
      let current := cfg.block currentBb
      if current.isDummy then isVisitedLoop addr prevBblock succBblock isFunctionStart rest cfg backlog
      else
        let start := current.startAddr
        let endAddr := current.endAddr
        -- a back branch is a cycle only when it is a jump, not a call
        let cfg := if addr ≤ (cfg.block prevBblock).endAddr ∧ !isFunctionStart then
            cfg.setState .kHasCycles
          else cfg
        if addr = start then (true, cfg.linkVisited prevBblock succBblock currentBb, backlog)
        else if start < addr ∧ addr < endAddr then
          match scanForSplit addr start current.instrs with
          | .splitAt prevInstr =>
              let (cfg, backlog) :=
                cfg.splitBlock backlog addr prevBblock succBblock currentBb prevInstr endAddr
              (true, cfg, backlog)
          | .passed => (false, cfg, backlog)
          | .exhausted => isVisitedLoop addr prevBblock succBblock isFunctionStart rest cfg backlog
        else isVisitedLoop addr prevBblock succBblock isFunctionStart rest cfg backlog

def isVisited (cfg : CFGraph) (addr prevBblock : Nat) (succBblock : Option Nat)
    (backlog : List BackLogDs) (isFunctionStart : Bool) : Bool × CFGraph × List BackLogDs :=
  isVisitedLoop addr prevBblock succBblock isFunctionStart cfg.visitedBblockList cfg backlog

/-- `IsVisitedForBacklog`; the predecessor of an entry is never null. -/
def isVisitedForBacklog (cfg : CFGraph) (entry : BackLogDs) (backlog : List BackLogDs) :
    Bool × CFGraph × List BackLogDs :=
  cfg.isVisited entry.ptr entry.predBb entry.succBb backlog entry.isFunctionStart

end CFGraph

/-- The walk state of `CFGHelper` that outlives it. -/
structure Walk where
  cfg : CFGraph
  backlog : List BackLogDs
  callGraph : CallGraph

/-- `CFGHelper(cfg, ptr, curr_bblock, backlog, depth, dummy_end)` from the
instruction at `ptr` of the block that started at `startPtr`: walk until an
instruction ends the block; a direct call pushes its target and goes on in a
new block after it. -/
def cfgHelper (code : CodeImage) (depth : Nat) (dummyEnd : Option Nat) :
    (fuel : Nat) → (ptr startPtr currBblock : Nat) → Walk → Option Walk
  | 0, _, _, _, _ => none
  | fuel + 1, ptr, startPtr, currBblock, walk =>
      match analyzeInstruction code walk.cfg ptr currBblock with
      | none => some walk
      | some (len, isBbEnd, target, cfg) =>
          let finish (cfg : CFGraph) (backlog : List BackLogDs) : Option Walk :=
            some { walk with cfg := cfg.addTuple currBblock startPtr ptr, backlog := backlog }
          -- jumps out of a called function return through its end block
          let succBb := if depth > 0 then dummyEnd else none
          match isBbEnd with
          | .kUnconditionalBranch =>
              finish cfg (walk.backlog ++
                [{ functionStart := (cfg.block currBblock).functionStartAddr, predBb := currBblock,
                   succBb := succBb, ptr := target, isFunctionStart := false, callDepth := 0 }])
          | .kConditionalBranch =>
              let functionStart := (cfg.block currBblock).functionStartAddr
              finish cfg (walk.backlog ++
                [{ predBb := currBblock, functionStart := functionStart, succBb := succBb,
                   ptr := target, callDepth := 0, isFunctionStart := false },
                 { isFunctionStart := false, predBb := currBblock, functionStart := functionStart,
                   succBb := succBb, ptr := ptr + len, callDepth := 0 }])
          | .kCall =>
              let cfg := cfg.addTuple currBblock startPtr ptr
              -- the function start of `curr_bblock`, which none of the calls below changes
              let functionStart := (cfg.block currBblock).functionStartAddr
              let (cfg, startBb) := cfg.createBBlock (some currBblock) functionStart
              let (cfg, endBb) := cfg.createBBlock none functionStart
              let cfg := (cfg.setDummy startBb).setDummy endBb
              let callEntry : BackLogDs :=
                { predBb := startBb, ptr := target, functionStart := target, succBb := some endBb,
                  isFunctionStart := true, callDepth := depth + 1 }
              let cfg := if callEntry.callDepth > cfg.callDepth then cfg.setCallDepth callEntry.callDepth
                else cfg
              let (cfg, bbAfterCall) := cfg.createBBlock (some endBb) functionStart
              let cfg := (cfg.addTuple startBb 0 0).addTuple endBb 0 0
              let callGraph := walk.callGraph.addCall (cfg.block bbAfterCall).functionStartAddr target
              cfgHelper code depth dummyEnd fuel (ptr + len) (ptr + len) bbAfterCall
                { cfg := cfg, backlog := walk.backlog ++ [callEntry], callGraph := callGraph }
          | .kReturn =>
              let cfg := match dummyEnd with
                | some dummy => (cfg.addPredBBlock dummy currBblock).addSuccBBlock currBblock dummy
                | none => cfg
              finish cfg walk.backlog
          | .kInterrupt => finish (cfg.setState .kHasInterrupts) walk.backlog
          | .kIndirectCall => finish (cfg.setState .kHasIndirectCalls) walk.backlog
          | .kIndirectJump => finish (cfg.setState .kHasIndirectJumps) walk.backlog
          | .kUnknown => finish (cfg.setState .kHasUnknownInstructions) walk.backlog
          | .kLock => finish (cfg.setState .kHasLocks) walk.backlog
          | .kCycle => finish (cfg.setState .kHasCycles) walk.backlog
          | .kNone => cfgHelper code depth dummyEnd fuel (ptr + len) startPtr currBblock { walk with cfg := cfg }

/-- One turn of the loop of `AnalyzeCFG`: take the newest backlog entry and walk
from it unless it was visited. -/
def analyzeBacklogEntry (code : CodeImage) (fuel : Nat) (walk : Walk) : Option Walk :=
  match walk.backlog.getLast? with
  | none => some walk
  | some entry =>
      let (visited, cfg, backlog) := walk.cfg.isVisitedForBacklog entry walk.backlog.dropLast
      if visited then some { walk with cfg := cfg, backlog := backlog }
      else
        let (cfg, currBb) := cfg.createBBlock (some entry.predBb) entry.functionStart
        cfgHelper code entry.callDepth entry.succBb fuel entry.ptr entry.ptr currBb
          { walk with cfg := cfg, backlog := backlog }

/-- The `do { ... } while (!backlog.empty())` loop of `AnalyzeCFG`, then the
recursion check of the call graph. -/
def analyzeBacklog (code : CodeImage) (fuel : Nat) : (turns : Nat) → Walk → Option AnalysisResult
  | 0, _ => none
  | turns + 1, walk => do
      let walk ← analyzeBacklogEntry code fuel walk
      if !walk.cfg.isStillFast then return walk.cfg.state
      if !walk.backlog.isEmpty then analyzeBacklog code fuel turns walk
      else
        let cycles ← walk.callGraph.hasCycles fuel
        return if cycles then .kHasCycles else walk.cfg.state

/-- `AnalyzeCFG(ptr)`. -/
def analyzeCFG (code : CodeImage) (ptr fuel : Nat) : Option AnalysisResult := do
  let (cfg, startBb) := ({} : CFGraph).createBBlock none 0
  let walk ← cfgHelper code 0 none fuel ptr ptr startBb { cfg := cfg, backlog := [], callGraph := {} }
  if !walk.cfg.isStillFast then return walk.cfg.state
  analyzeBacklog code fuel fuel walk

/-- A method whose entry calls a function laid out below it, which jumps back to
the entry: `0x100: call 0x50`, `0x105: ret`, `0x50: jmp 0x100`. The jump goes
forward, so `IsVisited` takes it for a join, not a loop, and the call graph only
holds the call. -/
def tailJumpRecursion : CodeImage := fun addr =>
  if addr = 0x100 then some ⟨5, .directCall 0x50, by decide⟩
  else if addr = 0x105 then some ⟨1, .ret, by decide⟩
  else if addr = 0x50 then some ⟨5, .directJmp 0x100, by decide⟩
  else none

theorem analyzeCFG_accepts_recursion_through_jump :
    analyzeCFG tailJumpRecursion 0x100 20 = some .kFast ∧
      ¬AlwaysReturns tailJumpRecursion 0x100 := by
  refine ⟨by decide +kernel, ?_⟩
  have atEntry : tailJumpRecursion 0x100 = some ⟨5, .directCall 0x50, by decide⟩ := rfl
  have atCallee : tailJumpRecursion 0x50 = some ⟨5, .directJmp 0x100, by decide⟩ := rfl
  -- the entry and the callee pass control to each other forever, the stack growing
  apply not_alwaysReturns_of_trap tailJumpRecursion {0x100, 0x50}
  · intro pc member insn decoded
    rcases member with rfl | rfl
    · rw [atEntry] at decoded
      cases decoded
      decide
    · rw [atCallee] at decoded
      cases decoded
      decide
  · intro pc member stack
    rcases member with rfl | rfl
    · exact ⟨⟨0x50, (0x100 + 5) :: stack⟩, Or.inr rfl, .call atEntry rfl⟩
    · exact ⟨⟨0x100, stack⟩, Or.inl rfl, .jmp atCallee rfl⟩
  · exact Or.inl rfl

end ArtRuntime.BinaryAnalyzer
