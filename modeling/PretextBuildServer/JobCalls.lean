import PretextBuildServer.Library.EffectProgram
import PretextBuildServer.ServerSettings
import PretextBuildServer.JobRecord

/-!
# What the code of one job calls

The API and the worker act on a job through Redis, RQ, the clock, Docker, the
job's directory, the asset cache, the resolver and the callback's receiver. Each
is one call here; what it may answer is left to the system it is run in. All
calls are about the one job whose code makes them.
-/

namespace PretextBuildServer.JobCalls

open EffectProgram
open PretextBuildServer.ServerSettings PretextBuildServer.JobRecord

set_option autoImplicit false

/-- The classes of exceptions the code tells apart. -/
inductive ExceptionClass where
  | imageNotFound
  | notFound
  | apiError
  | dockerException
  | readTimeout
  | reqConnectionError
  | requestException
  | gaierror
  | fileExistsError
  | osError
  | unicodeError
  | valueError
  | jobTimeoutException
  | noSuchJobError
  | invalidJobOperation
  | cancelled
  | httpException (statusCode : Nat)
  | other
  deriving DecidableEq, Repr

/-- An exception in flight; `message` is its `str`. -/
structure Raised where
  kind : ExceptionClass
  message : String := ""
  deriving DecidableEq, Repr

/-- `docker.errors.ImageNotFound` is a `NotFound`, and that is an `APIError`. -/
def Raised.isImageNotFound (raised : Raised) : Bool := raised.kind == .imageNotFound

def Raised.isAPIError (raised : Raised) : Bool :=
  match raised.kind with
  | .imageNotFound | .notFound | .apiError => true
  | _ => false

/-- `(ReadTimeout, ReqConnectionError)` -/
def Raised.isTimedOutWait (raised : Raised) : Bool :=
  match raised.kind with
  | .readTimeout | .reqConnectionError => true
  | _ => false

/-- docker's `APIError` derives from requests' `HTTPError`. -/
def Raised.isRequestException (raised : Raised) : Bool :=
  match raised.kind with
  | .requestException | .readTimeout | .reqConnectionError => true
  | _ => raised.isAPIError

/-- `requests.RequestException` derives from `IOError`, which is `OSError`. -/
def Raised.isOSError (raised : Raised) : Bool :=
  match raised.kind with
  | .osError | .fileExistsError | .gaierror => true
  | _ => raised.isRequestException

def Raised.isValueError (raised : Raised) : Bool :=
  match raised.kind with
  | .valueError | .unicodeError => true
  | _ => false

/-- Which piece of code reads the record. The answer does not depend on it. -/
inductive Reader where
  | load
  | preRun
  | poll
  | afterRun
  | sendCallback
  deriving DecidableEq, Repr

/-- What `ipaddress.ip_address` says of an address the resolver returned. -/
structure ResolvedAddress where
  text : String
  isLoopback : Bool
  isPrivate : Bool
  isLinkLocal : Bool
  isReserved : Bool
  isUnspecified : Bool
  isMulticast : Bool
  deriving DecidableEq, Repr

structure Bind where
  bind : Path
  mode : String
  deriving DecidableEq, Repr

/-- The `volumes` dict, keyed by the path on the Docker host. -/
abbrev Volumes := List (Path × Bind)

/-- `dict.update`: an existing key keeps its place and takes the new value. -/
def Volumes.update (volumes added : Volumes) : Volumes :=
  added.foldl (fun volumes entry =>
    if volumes.any (·.1 == entry.1) then
      volumes.map fun old => if old.1 == entry.1 then entry else old
    else volumes ++ [entry]) volumes

/-- The keyword arguments of `client.containers.run`. -/
structure RunKwargs where
  image : String
  command : List String
  detach : Bool
  workingDir : Path
  volumes : Volumes
  networkMode : String
  memLimit : String
  nanoCpus : Int
  pidsLimit : Int
  capDrop : List String
  securityOpt : List String
  user : Option String
  environment : List (String × String)

/-- The JSON body of a callback. `assets` and `files` are sent for generate jobs only. -/
structure Payload where
  jobId : String
  kind : Kind
  status : Option Status
  target : Option String
  exitCode : Option Int
  logTail : String
  logTruncated : Bool
  logUrl : String
  assets : Option (List String)
  files : Option (List String)
  artifactUrl : Option String
  deriving DecidableEq

/-- `X-PreTeXt-Signature`: the HMAC of a body under a secret. -/
structure BodySignature where
  secret : String
  body : Payload
  deriving DecidableEq

/-- The response to a POST, as far as it is looked at; `url` is the one `requests`
has sent it to. -/
structure Response where
  statusCode : Nat
  reason : String := ""
  url : String := ""
  deriving DecidableEq, Repr

inductive JobCall where
  -- Redis
  | hgetall (reader : Reader)
  | hset (fields : Fields)
  | expire (seconds : Int)
  -- RQ
  | enqueue (queue : Kind)
  | takeFromQueue
  | fetchJob
  | cancelJob
  | finishJob
  -- the clock
  | time
  -- the callback
  | checkNetloc (netloc : List Char)
  | getaddrinfo (hostname : List Char)
  | post (url : String) (body : Payload) (signature : Option BodySignature) (timeout : Int)
  -- the job's directory
  | makeWorkDir
  | writeUpload
  | extractUpload
  | removeUpload
  | removeJobDir
  | chmod (path : Path)
  | isDir (path : Path)
  | isLink (path : Path)
  | isFile (path : Path)
  | zipDir (srcDir zipPath : Path) (skipTopLevelDotfiles : Bool)
  | pruneExpiredJobs
  -- Docker
  | fromEnv
  | containersRun (kwargs : RunKwargs)
  | wait (timeout : Int)
  | kill
  | logs
  | remove
  -- the asset cache
  | touch (projectId : String)
  | harvest (projectId : String) (workDir : Path)
  | mounts (projectId : String) (workDir : Path)
  | pruneAssetCache (keepProjectId : Option String)

/-- `wait` answers the container's `StatusCode`, if the daemon sent one. -/
abbrev JobCall.Answer : JobCall → Type
  | .hgetall _ => Option Fields
  | .time => Nat
  | .getaddrinfo _ => List ResolvedAddress
  | .post .. => Response
  | .isDir _ | .isLink _ | .isFile _ => Bool
  | .zipDir .. => List String
  | .wait _ => Option Int
  | .logs => String
  | .harvest .. => List String
  | .mounts .. => Volumes
  | _ => Unit

abbrev JobProgram := Program JobCall.Answer Raised

abbrev jobCall (request : JobCall) : JobProgram request.Answer := Program.perform request

abbrev JobReply (request : JobCall) : Type := Except Raised request.Answer

end PretextBuildServer.JobCalls
