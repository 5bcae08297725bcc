import Mathlib.Data.List.Range
import Mathlib.Data.Nat.Basic

/-!
# MasterScheduler.Mote.Config — compile-time configuration of the firmware

The macros of `master-conf.h` and `master-project-conf.h` that size the bit
arrays of `master-routing.c`, with `MASTER_NUM_FLOWS` at its value of eight.
-/

namespace MasterScheduler.Mote

/-- The testbeds with a schedule dissemination. -/
inductive Testbed where
  | cooja
  | kiel
deriving DecidableEq, Repr

/-- `MASTER_NUM_FLOWS`. -/
def masterNumFlows : ℕ := 8

structure Config where
  testbed : Testbed
  /-- `NUM_COOJA_NODES`; the node count and the node identifiers are bytes. -/
  numCoojaNodes : ℕ
  /-- `TSCH_SCHEDULE_MAX_LINKS`. -/
  maxLinks : ℕ
  /-- `MASTER_MSG_LENGTH`. -/
  msgLength : ℕ
  numCoojaNodes_lt : numCoojaNodes < 256
  msgLength_gt : 2 < msgLength

/-- The defaults of the repository on a given testbed. -/
def defaultConfig (testbed : Testbed) : Config where
  testbed := testbed
  numCoojaNodes := 20
  maxLinks := 50
  msgLength := 59
  numCoojaNodes_lt := by decide
  msgLength_gt := by decide

/-- `deployment_node_count`. -/
def Config.deploymentNodeCount (cfg : Config) : ℕ :=
  match cfg.testbed with
  | .cooja => cfg.numCoojaNodes
  | .kiel => 20

/-- The local `nodes_to_count`; node 11 is missing in Kiel and node 21 takes its place. -/
def Config.nodesToCount (cfg : Config) : ℕ :=
  match cfg.testbed with
  | .cooja => cfg.deploymentNodeCount
  | .kiel => cfg.deploymentNodeCount + 1

/-- `last_node_id`. -/
def Config.lastNodeId (cfg : Config) : ℕ :=
  match cfg.testbed with
  | .cooja => cfg.numCoojaNodes
  | .kiel => 21

/-- The identifiers of the deployed nodes. -/
def Config.nodeIds (cfg : Config) : List ℕ :=
  match cfg.testbed with
  | .cooja => List.range' 1 cfg.numCoojaNodes
  | .kiel => List.range' 1 10 ++ List.range' 12 10

/-- On both testbeds every node has a bit in the three bytes of `schedule_received`. -/
theorem defaultConfig_nodeIds_le (testbed : Testbed) :
    ∀ n ∈ (defaultConfig testbed).nodeIds, n ≤ 8 * 3 := by
  cases testbed <;> decide

/-- `MAX_PACKETS_PER_SCHEDULE`. -/
def Config.maxPacketsPerSchedule (cfg : Config) : ℕ :=
  let nodes :=
    match cfg.testbed with
    | .cooja => cfg.numCoojaNodes
    | .kiel => cfg.numCoojaNodes + 1
  (nodes * (4 * cfg.maxLinks + 2 * masterNumFlows + 3) + 5 * masterNumFlows + 7) / cfg.msgLength

/-- The length of `received_packets_as_bit_array`. -/
def Config.receivedWords (cfg : Config) : ℕ :=
  if cfg.maxPacketsPerSchedule % 32 ≠ 0 then cfg.maxPacketsPerSchedule / 32 + 1
  else cfg.maxPacketsPerSchedule / 32

/-- The length of `metric_received`. -/
def Config.metricWords (cfg : Config) : ℕ :=
  match cfg.testbed with
  | .cooja =>
      if cfg.maxPacketsPerSchedule % 32 ≠ 0 then cfg.maxPacketsPerSchedule / 32 + 1
      else cfg.maxPacketsPerSchedule / 32
  | .kiel =>
      -- Here the two branches are the other way round.
      if cfg.maxPacketsPerSchedule % 32 ≠ 0 then cfg.maxPacketsPerSchedule / 32
      else cfg.maxPacketsPerSchedule / 32 + 1

/-- `array_size` of `init_master_routing`. -/
def Config.arraySize (cfg : Config) : ℕ :=
  if cfg.maxPacketsPerSchedule % 32 ≠ 0 then cfg.maxPacketsPerSchedule / 32 + 1
  else cfg.maxPacketsPerSchedule / 32

/-- The payload of a schedule packet: the message without command and packet
number, kept in a byte. -/
def Config.schedulePayloadSize (cfg : Config) : ℕ := (cfg.msgLength - 2) % 256

end MasterScheduler.Mote
