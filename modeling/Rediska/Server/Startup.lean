import Rediska.Cluster.Layout
import Rediska.Server.Run

/-! Starting the server: the flags of main, what main does with them, and what Run does
before it listens. -/

namespace Rediska.Server
open Go Core Cluster Storage Commands

/-- The flags, but for the address to listen on and the profiler's. -/
structure Flags where
  port : Int
  appendOnly : Bool
  appendOnlyFile : Bytes
  maxMemory : Int
  maxMemoryPolicy : Bytes
  maxMemorySamples : Int
  lfuLogFactor : Int
  lfuDecayTime : Int
  clusterEnabled : Bool
  clusterConfigFile : Bytes
  deriving DecidableEq, Repr

/-- What they are if they are not given. -/
def Flags.default : Flags where
  port := 7379
  appendOnly := false
  appendOnlyFile := []
  maxMemory := 0
  maxMemoryPolicy := ascii "noeviction"
  maxMemorySamples := 5
  lfuLogFactor := 10
  lfuDecayTime := 1
  clusterEnabled := false
  clusterConfigFile := []

/-- Any text is taken for a policy. -/
def policyOf (text : Bytes) : Policy :=
  if text = ascii "noeviction" then .noeviction
  else if text = ascii "allkeys-lru" then .allkeysLRU
  else if text = ascii "allkeys-lfu" then .allkeysLFU
  else if text = ascii "volatile-lfu" then .volatileLFU
  else .other text

/-- The contents of the files there are. -/
abbrev Disk := Bytes → Option Bytes

inductive StartupError where
  | noConfigFile
  | configFileMissing
  | badLayout (error : LayoutError)
  | initAOF
  | panicked (p : Panic)
  deriving DecidableEq, Repr

section
variable (nodeID : Bytes → Bytes) (env : Env) (flags : Flags) (disk : Disk)

def loadLayout (path : Bytes) (myPort : Int) : Except StartupError Layout :=
  match disk path with
  | none => .error .configFileMissing
  | some file => (parseLayout nodeID file myPort).mapError .badLayout

/-- The layout that main loads for a node of a cluster. -/
def clusterLayout : Except StartupError (Option Layout) :=
  if ¬ flags.clusterEnabled then .ok none
  else if flags.clusterConfigFile = [] then .error .noConfigFile
  else (loadLayout nodeID disk flags.clusterConfigFile flags.port).map some

/-- The settings as main leaves them. -/
def configure : Except StartupError Config := do
  let current ← clusterLayout nodeID flags disk
  .ok { maxMemory := flags.maxMemory, maxMemoryPolicy := policyOf flags.maxMemoryPolicy, maxMemorySamples := flags.maxMemorySamples,
        clusterEnabled := flags.clusterEnabled, current := current }

def tuning : LFUParams := setLFUParams .initial flags.lfuLogFactor flags.lfuDecayTime

/-- The file is created if it is not there, but one without a name cannot be. -/
def openAOF (path : Bytes) : Except StartupError AOF :=
  if path = [] then .error .initAOF else .ok (newAOF ((disk path).getD []))

def recoverAOF (cfg : Config) (store : Store) : Except StartupError World := do
  let aof ← openAOF disk flags.appendOnlyFile
  let store ← (aof.recover (replayAOFCommand (env.tuned (tuning flags)) cfg) store).mapError .panicked
  .ok ⟨store, some aof⟩

/-- The store and the file as Run has them when it starts to listen. -/
def restore (cfg : Config) : Except StartupError World :=
  let store := Store.setPolicy (.new .noeviction) cfg.maxMemoryPolicy
  if flags.appendOnly then recoverAOF env flags disk cfg store else .ok ⟨store, none⟩

def startup : Except StartupError (Config × World) := do
  let cfg ← configure nodeID flags disk
  let world ← restore env flags disk cfg
  .ok (cfg, world)

/-- What a process that has come to an end, in whatever way, leaves on the disk. The system
keeps what was written to the file, though the process has not asked it to sync. -/
def leaves (w : World) : Disk :=
  match w.aof with
  | none => disk
  | some aof => Function.update disk flags.appendOnlyFile (some aof.file)

end

/-- One process from its start to its end, which may come at any moment. -/
structure Life where
  env : Env
  cfg : Config
  world : World
  last : System

/-- The commands that were run, with the replies. -/
def Life.served (life : Life) : List (Command × Bytes) :=
  match runAll (dispatch life.env life.cfg) life.world (life.last.ran.map (·.2)) with
  | .ok (replies, _) => (life.last.ran.map (·.2)).zip replies
  | .error _ => []

/-- Processes that were started with the same flags one after another, and the disk behind
them. -/
inductive Lives (nodeID : Bytes → Bytes) (flags : Flags) (disk : Disk) : List Life → Disk → Prop
  | none : Lives nodeID flags disk [] disk
  | next {lives : List Life} {found : Disk} {env : Env} {cfg : Config} {world : World} {last : System}
      (before : Lives nodeID flags disk lives found) (starts : startup nodeID env flags found = .ok (cfg, world))
      (run : Relation.ReflTransGen (Step (env.tuned (tuning flags)) cfg) (.start world) last) :
      Lives nodeID flags disk (lives ++ [⟨env.tuned (tuning flags), cfg, world, last⟩]) (leaves flags found last.world)

end Rediska.Server
