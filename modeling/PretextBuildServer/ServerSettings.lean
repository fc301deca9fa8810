import PretextBuildServer.Library.BinaryFloats

/-!
# The runtime configuration

The environment variables as `Settings` reads them, without those no modelled
function uses. Paths are lists of components, so that joining is appending;
`HOST_DATA_DIR` is `none` when the variable is unset or empty.
-/

namespace PretextBuildServer.ServerSettings

open BinaryFloats

set_option autoImplicit false

abbrev Path := List String

/-- A number of cpus whose billionths still make a finite number. -/
structure CpuCount where
  number : Double
  room : number.exponent ≤ 939

def wholeCpus (count : Nat) (small : count ≤ 2 ^ 53) : CpuCount where
  number := {
    mantissa := count
    exponent := 0
    precise := small
    deep := by decide
    finite := by decide }
  room := by simp

/-- Resource limits for one kind of job, plus which directory of the project
(relative to its root) is zipped as the artifact. -/
structure Sandbox where
  memLimit : String
  cpus : CpuCount
  pidsLimit : Int
  timeout : Int
  outputSubdir : Path
  skipTopLevelDotfiles : Bool := false

structure Settings where
  buildToken : String
  buildImage : String
  buildNetwork : String
  buildProxy : String
  buildMemLimit : String
  buildCpus : CpuCount
  buildPidsLimit : Int
  buildTimeout : Int
  buildPollInterval : Int
  buildUser : String
  buildHome : String
  outputSubdir : Path
  generateMemLimit : String
  generateCpus : CpuCount
  generatePidsLimit : Int
  generateTimeout : Int
  generateOutputSubdir : Path
  assetCacheSubdir : String
  assetCacheTypes : List String
  assetCacheMaxAge : Int
  assetCacheMaxBytes : Int
  callbackTimeout : Int
  callbackRetries : Int
  callbackLogTailChars : Int
  callbackAllowedHosts : List String
  callbackAllowPrivateIps : Bool
  callbackSecret : String
  dataDir : Path
  hostDataDir : Option Path
  jobTtl : Int

variable (settings : Settings)

def Settings.buildSandbox : Sandbox where
  memLimit := settings.buildMemLimit
  cpus := settings.buildCpus
  pidsLimit := settings.buildPidsLimit
  timeout := settings.buildTimeout
  outputSubdir := settings.outputSubdir

def Settings.generateSandbox : Sandbox where
  memLimit := settings.generateMemLimit
  cpus := settings.generateCpus
  pidsLimit := settings.generatePidsLimit
  timeout := settings.generateTimeout
  outputSubdir := settings.generateOutputSubdir
  skipTopLevelDotfiles := true

/-- The directory of one job, as the API and the workers see it. -/
def Settings.jobDir (jobId : String) : Path := settings.dataDir ++ ["jobs", jobId]

def Settings.workDir (jobId : String) : Path := settings.jobDir jobId ++ ["work"]

/-- The values the configuration module falls back to. -/
def defaults : Settings where
  buildToken := ""
  buildImage := "pretextbook/pretext-full"
  buildNetwork := "none"
  buildProxy := ""
  buildMemLimit := "2g"
  buildCpus := wholeCpus 2 (by decide)
  buildPidsLimit := 512
  buildTimeout := 600
  buildPollInterval := 2
  buildUser := ""
  buildHome := ""
  outputSubdir := ["output"]
  generateMemLimit := "1g"
  generateCpus := wholeCpus 1 (by decide)
  generatePidsLimit := 256
  generateTimeout := 120
  generateOutputSubdir := [".cache"]
  assetCacheSubdir := "asset-cache"
  assetCacheTypes := ["latex-image", "asymptote", "sageplot", "prefigure"]
  assetCacheMaxAge := 30 * 86400
  assetCacheMaxBytes := 5 * 1024 ^ 3
  callbackTimeout := 10
  callbackRetries := 3
  callbackLogTailChars := 4000
  callbackAllowedHosts := []
  callbackAllowPrivateIps := false
  callbackSecret := ""
  dataDir := ["data"]
  hostDataDir := none
  jobTtl := 86400

end PretextBuildServer.ServerSettings
