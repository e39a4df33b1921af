import WindowCast.GameStream.Http
import WindowCast.GameStream.PairClient
import WindowCast.GameStream.Stream
import WindowCast.SecureHelper.Permission

/-!
# The connections of a host

A host takes one request on a connection, over HTTP or over HTTPS with the client's certificate,
and only those whose certificate is pinned may list its apps, launch one, or quit it
(`server.rs`).  Its pairings are behind one lock: a panic that holds it leaves no way to
them.

## Main definitions

* `appList`, `serverInfo`, `launchAnswer` — what is answered.
* `asked`, `askedMode`, `askedApp` — what a launch asks for.
* `GameStreamHost` — a host with its pairings and its streams.
* `GameStreamHost.connection`, `GameStreamHost.step` — a request, and whatever else happens to it.
-/

namespace WindowCast.GameStream

open Xml (encodeHex decodeHex)
open HostPairing (value)
open WindowCast.Host (WindowId)
open WindowCast.SecureHelper (parseUnsigned)

/-! ### Apps -/

/-- One app the host offers. -/
structure App where
  id : UInt32
  title : Text
  hdr : Bool
  deriving DecidableEq

/-- The windows in compatibility mode, by their numbers. -/
def CompatApps.apps (self : CompatApps) : List App :=
  (self.shown.entries.map fun e => (⟨appId e.1, e.2, false⟩ : App)).insertionSort fun a b => a.id ≤ b.id

namespace GameStreamHost

def flag (b : Bool) : Text := if b then "1".toList else "0".toList

/-- An element, its text escaped already. -/
def element (name : String) (text : Text) : Text := Xml.opening name.toList ++ (text ++ Xml.closing name.toList)

def appBlock (app : App) : Text :=
  element "App" (element "IsHdrSupported" (flag app.hdr) ++ (element "AppTitle" (Xml.escape app.title) ++
    element "ID" (Nat.toDigits 10 app.id.toNat)))

def appList (apps : List App) : Text :=
  "<?xml version=\"1.0\" encoding=\"utf-8\"?>\n<root status_code=\"200\">".toList ++ apps.flatMap appBlock ++
    "</root>".toList

/-! ### What a launch asks for -/

/-- The key and the key id of a launch, if both are there; none, where reading the key panics. -/
def asked (query : Query) : Option (Option (Vector UInt8 16 × UInt32)) :=
  (HostPairing.arg query "rikey").map fun key => do
    let bytes ← key
    if h : bytes.toArray.size = 16 then
      let id ← (value query "rikeyid").bind Xml.parseI64
      some (⟨bytes.toArray, h⟩, UInt32.ofNat (id % 2 ^ 32).toNat)
    else none

def parseU32 (text : Text) : Option UInt32 := (parseUnsigned (2 ^ 32) text).map UInt32.ofNat

/-- Width, height and frames a second. -/
def askedMode (query : Query) : UInt32 × UInt32 × UInt32 :=
  let mode := (Text.split 'x' ((value query "mode").getD [])).filterMap parseU32
  (mode[0]?.getD 1280, mode[1]?.getD 720, (mode[2]?.filter fun fps => 0 < fps).getD 60)

def askedApp (query : Query) : Option UInt32 := (value query "appid").bind parseU32

/-- What a launch's pings carry, of what is drawn for it. -/
def pingPayload (random : Vector UInt8 16) : List UInt8 :=
  random.toList.map fun b =>
    (Utf8.encode "ABCDEFGHIJKLMNOPQRSTUVWXYZabcdefghijklmnopqrstuvwxyz0123456789".toList).getD (b.toNat % 62) 0

end GameStreamHost

/-! ### A host -/

/-- What a host says of itself. -/
structure Face where
  name : Text
  uniqueId : Text
  codecModes : UInt32
  httpsPort : UInt16
  rtspPort : UInt16

/-- The address that a connection came to. -/
structure LocalAddress where
  ip : Text
  v6 : Bool

/-- A host with its pairings and its streams. -/
structure GameStreamHost where
  pairings : History
  /-- A request has panicked with the pairings locked. -/
  poisoned : Bool
  server : Server
  /-- The key ids of the launches. -/
  keyIds : List UInt32
  /-- The RTSP connections that are open, each with the launch it is about. -/
  rtsp : List (Option ℕ)
  /-- What the last request was answered. -/
  answer : Option Text

/-- A request: whether it came over HTTPS, and then with which certificate, and what it asks for;
with it, what is drawn for it. -/
structure Request where
  peer : Option (Option (List UInt8))
  path : Text
  query : Query
  address : LocalAddress
  secret : Vector UInt8 16
  drawn : Vector UInt8 16
  random : Vector UInt8 16
  connectData : UInt32

/-- The certificate of a client that came over HTTPS. -/
def Request.cert (request : Request) : Option (List UInt8) := request.peer.join

/-- Whether it asks for what runs already. -/
def Request.resumes (request : Request) : Bool := request.path = "/resume".toList

namespace GameStreamHost

variable (crypto : Cryptography) (server : Credentials) (face : Face)

/-- The certificates that were read from the disk, and the windows listed. -/
def opened (paired : List (List UInt8)) (windows : List WindowId) : GameStreamHost :=
  ⟨.opened paired, false, .new windows, [], [], none⟩

/-- Nothing but an answer, if there is one. -/
def quiet (self : GameStreamHost) (answer : Option Text) : GameStreamHost :=
  { self with server := { self.server with out := [] }, answer }

/-- Whether the client is paired. -/
def isPaired (self : GameStreamHost) (request : Request) : Bool :=
  request.cert.any self.pairings.host.paired.contains

theorem isPaired_iff {self : GameStreamHost} {request : Request} :
    self.isPaired request = true ↔
      ∃ cert, request.peer = some (some cert) ∧ cert ∈ self.pairings.host.paired := by
  rw [isPaired, Option.any_eq_true]
  exact exists_congr fun cert => and_congr Option.join_eq_some_iff List.contains_iff_mem

def currentGame (self : GameStreamHost) : UInt32 := (self.server.running.map Launch.app).getD 0

def serverInfo (self : GameStreamHost) (request : Request) : Text :=
  Xml.response 200 none [
    ("hostname".toList, face.name),
    ("appversion".toList, APP_VERSION),
    ("GfeVersion".toList, "3.23.0.74".toList),
    ("uniqueid".toList, face.uniqueId),
    ("HttpsPort".toList, Nat.toDigits 10 face.httpsPort.toNat),
    ("ExternalPort".toList, "47989".toList),
    ("MaxLumaPixelsHEVC".toList, "0".toList),
    ("mac".toList, "00:00:00:00:00:00".toList),
    ("LocalIP".toList, request.address.ip),
    ("ServerCodecModeSupport".toList, Nat.toDigits 10 face.codecModes.toNat),
    ("PairStatus".toList, flag (self.isPaired request)),
    ("currentgame".toList, Nat.toDigits 10 self.currentGame.toNat),
    ("state".toList, if 0 < self.currentGame then "SUNSHINE_SERVER_BUSY".toList else "SUNSHINE_SERVER_FREE".toList)]

/-- The answer to a launch that is made. -/
def launchAnswer (address : LocalAddress) (resume : Bool) : Text :=
  Xml.response 200 none [
    ("sessionUrl0".toList, "rtsp://".toList ++ (if address.v6 then '[' :: address.ip ++ [']'] else address.ip) ++
      ':' :: Nat.toDigits 10 face.rtspPort.toNat),
    ("gamesession".toList, "1".toList),
    ("resume".toList, flag resume)]

def refused (code : ℕ) (message name : String) : Text :=
  Xml.response code (some message.toList) [(name.toList, "0".toList)]

/-- `/launch`, or `/resume` of the running app. -/
def launch (platform : Platform) (self : GameStreamHost) (resume : Bool) (request : Request) : GameStreamHost :=
  match asked request.query with
  | none => self.quiet none
  | some none =>
    self.quiet (some (refused 400 "Missing a required launch parameter" "resume"))
  | some (some (key, keyId)) =>
    let make (app : UInt32) : GameStreamHost :=
      match self.server.step platform (.launch resume app key (askedMode request.query) (pingPayload request.random)
        request.connectData) with
      | some server =>
        { self with
          server := server
          keyIds := self.keyIds ++ [keyId]
          answer := some (launchAnswer face request.address resume) }
      | none => self.quiet none
    if resume then
      match self.server.running with
      | some running => make running.app
      | none => self.quiet (some (refused 503 "No app is running to resume" "resume"))
    else if self.server.running.isSome then
      self.quiet (some (refused 400 "An app is already running on this host" "resume"))
    else
      match (askedApp request.query).filter fun app => self.server.apps.apps.any fun a => a.id = app with
      | some app => make app
      | none => self.quiet (some (refused 404 "No such app" "gamesession"))

/-- Whether a request for a pairing takes the lock of the pairings. -/
def locks (query : Query) : Bool :=
  (value query "uniqueid").isSome &&
    if value query "phrase" = some "getservercert".toList then
      match HostPairing.start crypto (GameStreamServer.given query "salt") (GameStreamServer.given query "clientcert")
        (GameStreamServer.given query "devicename") with
      | some (.ok _) => true
      | _ => false
    else value query "phrase" ≠ some "pairchallenge".toList

def answerOf : Reply → Option Text
  | .answered xml _ => some xml
  | _ => none

/-- An event of the pairings, unless there is no way to them. -/
def pairingEvent (self : GameStreamHost) (locked : Bool) (event : Event) : GameStreamHost :=
  if self.poisoned ∧ locked then self.quiet none
  else
    match self.pairings.step crypto server event with
    | some pairings => { self.quiet ((pairings.log.getLast?.map Prod.snd).bind answerOf) with pairings }
    | none => { self.quiet none with poisoned := true }

def unauthorized : Text :=
  Xml.response 401 (some "The client is not authorized. Certificate verification failed.".toList) []

/-- One request. -/
def connection (platform : Platform) (self : GameStreamHost) (request : Request) : GameStreamHost :=
  if request.path = "/serverinfo".toList then self.quiet (some (self.serverInfo face request))
  else if request.path = "/pair".toList then
    self.pairingEvent crypto server (locks crypto request.query)
      (.request request.query request.peer.isSome request.cert request.secret request.drawn)
  else if request.path = "/applist".toList then
    self.quiet (some (if self.isPaired request then appList self.server.apps.apps else unauthorized))
  else if request.path = "/launch".toList ∨ request.path = "/resume".toList then
    if self.isPaired request then self.launch face platform request.resumes request
    else self.quiet (some unauthorized)
  else if request.path = "/cancel".toList then
    if self.isPaired request then
      match self.server.step platform .cancel with
      | some server => { self with server, answer := some (Xml.response 200 none [("cancel".toList, "1".toList)]) }
      | none => self.quiet none
    else self.quiet (some unauthorized)
  else self.quiet (some (Xml.response 404 none []))

/-- What happens to a host. -/
inductive Event
  | request (request : Request)
  | enterPin (pin : Text) (deviceName : Option Text) (uniqueId : Text)
  | giveUp (uniqueId : Text)
  /-- An RTSP connection is taken, for what is launched then. -/
  | accept
  /-- It has an ANNOUNCE, whose attributes are read as numbers, or anything else. -/
  | rtsp (connection : ℕ) (number : Option (String → Option UInt32)) (peer : Option Ip)
  | shows (window : WindowId) (title : Text)
  | drops (window : WindowId)
  | lists (windows : List WindowId)
  | run (run : ℕ) (event : Run.Event)
  | clears (run : ℕ)

/-- A step of the streams alone. -/
def streams (platform : Platform) (self : GameStreamHost) (e : Server.Event) : Option GameStreamHost :=
  (self.server.step platform e).map fun server => { self with server, answer := none }

/-- One step; `none`, where there is no such step. -/
def step (platform : Platform) (self : GameStreamHost) : Event → Option GameStreamHost
  | .request request => some (self.connection crypto server face platform request)
  | .enterPin pin deviceName uniqueId => some (self.pairingEvent crypto server true (.enterPin pin deviceName uniqueId))
  | .giveUp uniqueId => some (self.pairingEvent crypto server true (.giveUp uniqueId))
  | .accept => some { self.quiet none with rtsp := self.rtsp ++ [self.server.launch] }
  | .rtsp connection number peer => do
    let launch ← self.rtsp[connection]?
    let self := { self with rtsp := self.rtsp.eraseIdx connection }
    match launch, number with
    | some launch, some number => self.streams platform (.announce launch number peer)
    | _, _ => some (self.quiet none)
  | .shows window title => self.streams platform (.shows window title)
  | .drops window => self.streams platform (.drops window)
  | .lists windows => self.streams platform (.lists windows)
  | .run run event => self.streams platform (.run run event)
  | .clears run => self.streams platform (.clears run)

end GameStreamHost

end WindowCast.GameStream
