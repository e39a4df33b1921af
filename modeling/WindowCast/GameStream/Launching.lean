import WindowCast.GameStream.Grants

/-!
# A launch, from a client to its host and back

`launch` of `gamestream/src/client.rs`, against the host's end of it: the values of the request
as they are encoded, sent, read and decoded, and the answer with the address of the session.

## Main definitions

* `LaunchRequest`, `launchQuery` — what a client asks for.
* `readSession` — what it reads of the answer.
* `receivedQuery` — the values of a launch as the host reads them.

## Main results

* `asked_receivedQuery`, `askedMode_receivedQuery`, `askedApp_receivedQuery` — the values are read back.
* `readSession_launchAnswer` — so is the session's address.
* `launch_arrives` — **a launch that is granted has what the client asked for**, and the client the session's address.
-/

namespace WindowCast.GameStream

open Xml (encodeHex decodeHex)
open HostPairing (value)
open GameStreamHost
open WindowCast.Host (WindowId)
open WindowCast.SecureHelper (parseUnsigned)

/-! ### The client -/

/-- What a launch asks for. -/
structure LaunchRequest where
  appId : UInt32
  width : UInt32
  height : UInt32
  fps : UInt32
  inputKey : Vector UInt8 16
  inputKeyId : UInt32
  /-- Play the sound on the host too. -/
  hostAudio : Bool
  surroundAudioInfo : UInt32
  gamepads : UInt32

/-- A number in decimal digits. -/
def decimal (n : UInt32) : Text := Nat.toDigits 10 n.toNat

/-- A number of 32 bits as a signed one, in decimal digits. -/
def signedDecimal (n : UInt32) : Text :=
  if n.toNat < 2 ^ 31 then decimal n else '-' :: Nat.toDigits 10 (2 ^ 32 - n.toNat)

def launchQuery (launch : LaunchRequest) : Query := [
  ("appid".toList, decimal launch.appId),
  ("mode".toList, decimal launch.width ++ 'x' :: (decimal launch.height ++ 'x' :: decimal launch.fps)),
  ("additionalStates".toList, "1".toList),
  ("sops".toList, "0".toList),
  ("rikey".toList, encodeHex launch.inputKey.toList),
  ("rikeyid".toList, signedDecimal launch.inputKeyId),
  ("localAudioPlayMode".toList, flag launch.hostAudio),
  ("surroundAudioInfo".toList, decimal launch.surroundAudioInfo),
  ("remoteControllersBitmap".toList, decimal launch.gamepads),
  ("gcmap".toList, decimal launch.gamepads),
  ("gcpersist".toList, "0".toList)]

/-- The address of the session, in the answer to a launch. -/
def readSession {σ : Type} (answer : Text) : Client σ Text := do
  Client.ok answer
  let some session := Xml.text answer "sessionUrl0".toList | throw (.pairing "the host gave no session URL")
  return session

/-! ### Numbers -/

section

variable {n bound : ℕ}

theorem isDigit_toDigits (n : ℕ) : ∀ c ∈ Nat.toDigits 10 n, c.isDigit = true :=
  fun _ hc => Nat.isDigit_of_mem_toDigits (by decide) (by decide) hc

theorem all_isDigit_toDigits (n : ℕ) : Nat.toDigits 10 n ≠ [] ∧ (Nat.toDigits 10 n).all Char.isDigit :=
  ⟨Nat.toDigits_ne_nil, List.all_eq_true.mpr (isDigit_toDigits n)⟩

theorem parseUnsigned_toDigits (hlt : n < bound) : parseUnsigned bound (Nat.toDigits 10 n) = some n := by
  have hsign : (Nat.toDigits 10 n).head? ≠ some '+' := fun h => by
    have hdigit := isDigit_toDigits n _ (List.mem_of_head? h)
    cases hdigit
  have hvalue : (Nat.toDigits 10 n).foldl (fun value c => 10 * value + (c.toNat - '0'.toNat)) 0 = n :=
    Nat.ofDigitChars_ten_toDigits
  simp only [parseUnsigned, if_neg hsign, if_pos (all_isDigit_toDigits n), hvalue, if_pos hlt]

theorem parseU32_decimal (n : UInt32) : parseU32 (decimal n) = some n := by
  rw [parseU32, decimal, parseUnsigned_toDigits n.toNat_lt, Option.map_some, UInt32.ofNat_toNat]

/-- A number that is written as a signed one is the same again, as one without a sign. -/
theorem parseI64_signedDecimal (n : UInt32) :
    ∃ i, Xml.parseI64 (signedDecimal n) = some i ∧ UInt32.ofNat (i % 2 ^ 32).toNat = n := by
  have hlt : n.toNat < 2 ^ 32 := n.toNat_lt
  rw [signedDecimal]
  split
  · rename_i hsmall
    refine ⟨n.toNat, Xml.parseI64_toDigits (hlt.trans (by decide)), ?_⟩
    have hmod : ((n.toNat : ℤ) % 2 ^ 32).toNat = n.toNat := by omega
    rw [hmod, UInt32.ofNat_toNat]
  · rename_i hlarge
    refine ⟨-((2 ^ 32 - n.toNat : ℕ) : ℤ), ?_, ?_⟩
    · have hdigits := all_isDigit_toDigits (2 ^ 32 - n.toNat)
      have hrange : -2 ^ 63 ≤ -((2 ^ 32 - n.toNat : ℕ) : ℤ) ∧ -((2 ^ 32 - n.toNat : ℕ) : ℤ) < 2 ^ 63 := by omega
      simp only [Xml.parseI64, Xml.signed, if_pos hdigits, if_true, Nat.ofDigitChars_ten_toDigits, if_pos hrange]
    · have hmod : (-((2 ^ 32 - n.toNat : ℕ) : ℤ) % 2 ^ 32).toNat = n.toNat := by omega
      rw [hmod, UInt32.ofNat_toNat]

/-! ### The values of a launch -/

variable {launch : LaunchRequest} {uniqueId : Text} {uuid : Vector UInt8 16}

/-- The values as the host reads them, behind the client's id and that of the request. -/
def receivedQuery (uniqueId : Text) (uuid : Vector UInt8 16) (launch : LaunchRequest) : Query :=
  ("uniqueid".toList, uniqueId) :: ("uuid".toList, encodeHex uuid.toList) :: launchQuery launch

theorem asked_receivedQuery :
    asked (receivedQuery uniqueId uuid launch) = some (some (launch.inputKey, launch.inputKeyId)) := by
  have hkey : value (receivedQuery uniqueId uuid launch) "rikey" = some (encodeHex launch.inputKey.toList) := rfl
  have hid : value (receivedQuery uniqueId uuid launch) "rikeyid" = some (signedDecimal launch.inputKeyId) := rfl
  obtain ⟨i, hi, hmod⟩ := parseI64_signedDecimal launch.inputKeyId
  have hsize : launch.inputKey.toList.toArray.size = 16 := by simp
  rw [asked, HostPairing.arg, hkey, hid]
  dsimp only
  rw [Xml.decodeHex_encodeHex, Option.map_some, Option.bind_eq_bind, Option.bind_some, dif_pos hsize]
  simp only [Option.bind_some, hi, Option.bind_eq_bind, hmod]
  rfl

theorem not_mem_decimal {c : Char} (hc : c.isDigit = false) (n : UInt32) : c ∉ decimal n := fun h => by
  rw [isDigit_toDigits _ c h] at hc
  cases hc

theorem askedMode_receivedQuery : askedMode (receivedQuery uniqueId uuid launch) =
    (launch.width, launch.height, if launch.fps = 0 then 60 else launch.fps) := by
  have hmode : value (receivedQuery uniqueId uuid launch) "mode" =
      some (decimal launch.width ++ 'x' :: (decimal launch.height ++ 'x' :: decimal launch.fps)) := rfl
  have hsplit (n : UInt32) : Text.split 'x' (decimal n) = [decimal n] := Text.split_of_not_mem (not_mem_decimal rfl n)
  rw [askedMode, hmode, Option.getD_some, Text.split_append, Text.split_append, hsplit, hsplit, hsplit]
  simp only [List.cons_append, List.nil_append, List.filterMap_cons, parseU32_decimal, List.filterMap_nil,
    List.getElem?_cons_zero, List.getElem?_cons_succ, Option.getD_some, Option.filter_some]
  by_cases hfps : launch.fps = 0
  · rw [if_pos hfps, hfps]
    rfl
  · have hpos : 0 < launch.fps := by
      rw [UInt32.lt_iff_toNat_lt]
      exact Nat.pos_of_ne_zero fun h => hfps (UInt32.toNat_inj.mp h)
    rw [if_neg hfps, if_pos (decide_eq_true hpos), Option.getD_some]

theorem askedApp_receivedQuery : askedApp (receivedQuery uniqueId uuid launch) = some launch.appId := by
  have happ : value (receivedQuery uniqueId uuid launch) "appid" = some (decimal launch.appId) := rfl
  rw [askedApp, happ, Option.bind_some, parseU32_decimal]

/-! ### The answer -/

/-- The session's address, as the host writes it. -/
def sessionUrl (face : Face) (address : LocalAddress) : Text :=
  "rtsp://".toList ++ (if address.v6 then '[' :: address.ip ++ [']'] else address.ip) ++
    ':' :: Nat.toDigits 10 face.rtspPort.toNat

/-- A text with no blank at its ends. -/
theorem trim_of_ends {text front : Text} {c d : Char} {rest : Text} (hfirst : text = c :: rest)
    (hlast : text = front ++ [d]) (hc : Text.isWhitespace c = false) (hd : Text.isWhitespace d = false) :
    Text.trim text = text := by
  have hdrop : text.dropWhile Text.isWhitespace = text := by
    rw [hfirst, List.dropWhile_cons_of_neg (Bool.not_eq_true _ ▸ hc)]
  rw [Text.trim, hdrop, hlast, List.rdropWhile_concat_neg _ _ _ (Bool.not_eq_true _ ▸ hd)]

theorem isWhitespace_of_isDigit {c : Char} (h : c.isDigit = true) : Text.isWhitespace c = false := by
  have hall : ∀ n < 58, (Char.ofNat n).isDigit = true → Text.isWhitespace (Char.ofNat n) = false := by decide
  have hlt : c.toNat < 58 := by
    rw [Char.isDigit, Bool.and_eq_true, decide_eq_true_eq, decide_eq_true_eq] at h
    exact Nat.lt_succ_of_le h.2
  have hc := hall c.toNat hlt
  rw [Char.ofNat_toNat] at hc
  exact hc h

theorem trim_sessionUrl (face : Face) (address : LocalAddress) :
    Text.trim (sessionUrl face address) = sessionUrl face address := by
  obtain ⟨scheme, hscheme⟩ : ∃ scheme, "rtsp://".toList = 'r' :: scheme := ⟨"tsp://".toList, rfl⟩
  unfold sessionUrl
  rw [hscheme]
  generalize (if address.v6 = true then '[' :: address.ip ++ [']'] else address.ip) = host
  have hne : Nat.toDigits 10 face.rtspPort.toNat ≠ [] := Nat.toDigits_ne_nil
  have hdigit := isDigit_toDigits face.rtspPort.toNat _ (List.getLast_mem hne)
  generalize hdigits : Nat.toDigits 10 face.rtspPort.toNat = digits at hne hdigit
  have hlast : 'r' :: scheme ++ host ++ ':' :: digits =
      ('r' :: scheme ++ host ++ ':' :: digits.dropLast) ++ [digits.getLast hne] := by
    have hdigits : ':' :: digits = ':' :: digits.dropLast ++ [digits.getLast hne] :=
      congrArg (':' :: ·) (List.dropLast_concat_getLast hne).symm
    exact (congrArg ('r' :: scheme ++ host ++ ·) hdigits).trans (List.append_assoc _ _ _).symm
  exact trim_of_ends rfl hlast (by decide) (isWhitespace_of_isDigit hdigit)

theorem isName_of_map {elements : List (Text × Text)} (h : ∀ name ∈ elements.map Prod.fst, Xml.IsName name) :
    ∀ e ∈ elements, Xml.IsName e.1 := fun _ he => h _ (List.mem_map_of_mem he)

theorem readSession_launchAnswer {σ : Type} (face : Face) (address : LocalAddress) (resume : Bool) (s : σ) :
    readSession (launchAnswer face address resume) s = some (.ok (sessionUrl face address), s) := by
  have hstatus : Xml.status (launchAnswer face address resume) = (some ((200 : ℕ) : ℤ), none) :=
    Xml.status_response (by decide)
  have hnames : ∀ name ∈ ["sessionUrl0".toList, "gamesession".toList, "resume".toList], Xml.IsName name := by decide
  have hdistinct : ["sessionUrl0".toList, "gamesession".toList, "resume".toList].Nodup := by decide
  have htext : Xml.text (launchAnswer face address resume) "sessionUrl0".toList = some (sessionUrl face address) := by
    have hread : Xml.text (launchAnswer face address resume) "sessionUrl0".toList =
        some (Text.trim (sessionUrl face address)) :=
      Xml.text_response (isName_of_map hnames) hdistinct List.mem_cons_self
    rwa [trim_sessionUrl] at hread
  simp only [readSession, Client.ok, hstatus, htext]
  rfl

/-! ### There and back -/

/-- What a client asks for, without the slash. -/
def launchPath (resume : Bool) : Text := if resume then "resume".toList else "launch".toList

theorem launchPath_spec (resume : Bool) : Http.IsPlain (launchPath resume) ∧
    ('/' :: launchPath resume = "/launch".toList ∨ '/' :: launchPath resume = "/resume".toList) ∧
    '/' :: launchPath resume ≠ "/serverinfo".toList ∧ '/' :: launchPath resume ≠ "/pair".toList ∧
    '/' :: launchPath resume ≠ "/applist".toList := by
  cases resume <;> decide

theorem isPlain_launchQuery (launch : LaunchRequest) : ∀ p ∈ launchQuery launch, Http.IsPlain p.1 := by
  have hnames : ∀ name ∈ (launchQuery launch).map Prod.fst, Http.IsPlain name := by
    show ∀ name ∈ ["appid".toList, "mode".toList, "additionalStates".toList, "sops".toList, "rikey".toList,
      "rikeyid".toList, "localAudioPlayMode".toList, "surroundAudioInfo".toList, "remoteControllersBitmap".toList,
      "gcmap".toList, "gcpersist".toList], Http.IsPlain name
    decide
  exact fun p hp => hnames _ (List.mem_map_of_mem hp)

variable {crypto : Cryptography} {server : Credentials} {face : Face} {platform : Platform}
  {known : List (List UInt8)} {windows : List WindowId} {events : List GameStreamHost.Event}
  {host : GameStreamHost}

variable (uniqueId uuid) in
/-- The request that makes the launch. -/
theorem grants_receivedQuery {cert : List UInt8} (hcert : cert ∈ host.pairings.host.paired) {resume : Bool}
    {app : UInt32} (hallows : host.server.allows resume launch.appId = some app) (address : LocalAddress)
    (secret drawn random : Vector UInt8 16) (connectData : UInt32) :
    host.Grants ⟨some (some cert), '/' :: launchPath resume, receivedQuery uniqueId uuid launch, address, secret, drawn,
      random, connectData⟩ launch.inputKey launch.inputKeyId app := by
  refine ⟨isPaired_iff.mpr ⟨cert, rfl, hcert⟩, asked_receivedQuery, ?_⟩
  unfold Server.allows at hallows
  split at hallows
  · rename_i running hrunning
    exact .inl ⟨rfl, running, hrunning, Option.some.inj hallows⟩
  · cases hallows
  · cases hallows
  · rename_i hrunning
    split at hallows
    · rename_i hshows
      obtain rfl := Option.some.inj hallows
      exact .inr ⟨rfl, hrunning, askedApp_receivedQuery, hshows⟩
    · cases hallows

/-- A request for a launch that is granted makes it. -/
theorem step_of_grants {request : Request} {resume : Bool} {key : Vector UInt8 16} {keyId app : UInt32}
    (hpath : request.path = '/' :: launchPath resume) (hgrants : host.Grants request key keyId app) :
    host.step crypto server face platform (.request request) =
      some (host.launched face request key keyId app) := by
  obtain ⟨-, hmakes, hinfo, hpair, hlist⟩ := launchPath_spec resume
  rw [← hpath] at hmakes hinfo hpair hlist
  rw [GameStreamHost.step, connection, if_neg hinfo, if_neg hpair, if_neg hlist, if_pos hmakes, hgrants.paired,
    if_pos rfl, launch_of_grants hgrants]

/-- **A launch that is granted has what the client asked for**: the request of a client that is paired,
as it is encoded and sent, makes the launch that goes on; it has the client's key, key id and
mode, the frames a second 60 if none were asked for, and the client reads the session's address. -/
theorem launch_arrives {σ : Type} (s : σ)
    (hrun : events.foldlM (step crypto server face platform) (opened known windows) = some host)
    {cert : List UInt8} (hcert : cert ∈ host.pairings.host.paired) (hid : Http.IsPlain uniqueId) {resume : Bool}
    {app : UInt32} (hallows : host.server.allows resume launch.appId = some app) {fields : List UInt8} {place : ℕ}
    (hfind : Gather.find Http.mark
      (Http.requestHead (Http.target uniqueId uuid (launchPath resume) (launchQuery launch)) fields) = some place)
    (hplace : place + 4 ≤ Http.MAX_HEAD + 1) (address : LocalAddress) (secret drawn random : Vector UInt8 16)
    (connectData : UInt32) :
    ∃ path query host' answer,
      Http.readRequest (Http.requestHead (Http.target uniqueId uuid (launchPath resume) (launchQuery launch)) fields) =
        some (path, query) ∧
      host.step crypto server face platform
        (.request ⟨some (some cert), path, query, address, secret, drawn, random, connectData⟩) = some host' ∧
      host'.server.launch = some host.server.launches.length ∧
      host'.server.launches[host.server.launches.length]? = some ⟨app, launch.inputKey, launch.width, launch.height,
        if launch.fps = 0 then 60 else launch.fps, pingPayload random, connectData, false, false⟩ ∧
      host'.keyIds[host.server.launches.length]? = some launch.inputKeyId ∧
      (∀ (i : ℕ) (other : Launch), host'.server.launches[i]? = some other → other.stop = false →
        i = host.server.launches.length) ∧
      host'.answer = some answer ∧ readSession answer s = some (.ok (sessionUrl face address), s) := by
  obtain ⟨hplain, -⟩ := launchPath_spec resume
  have hgrants := grants_receivedQuery uniqueId uuid hcert hallows address secret drawn random connectData
  have hstep : host.step crypto server face platform _ = _ := step_of_grants rfl hgrants
  have hread := Http.request_reads_back hplain hid (isPlain_launchQuery launch) hfind hplace
  have hgranted := granted_of_run hrun
  have hcurrent := (hgranted.step hrun hstep).current
  refine ⟨_, _, _, _, hread, hstep, rfl, ?_, ?_, fun i other hi hgoes => ?_, rfl,
    readSession_launchAnswer face address _ s⟩
  · rw [launched, ← host.server.length_stopped, List.getElem?_concat_length, launchOf, askedMode_receivedQuery]
  · rw [launched, ← hgranted.length, List.getElem?_concat_length]
  · exact (Option.some.inj (hcurrent i other hi hgoes)).symm

end

/-- A launch in full HD, of the window that is shown. -/
def fullHd : LaunchRequest := ⟨1, 1920, 1080, 0, Vector.replicate 16 7, 0xffffffff, false, 196610, 1⟩

/-- It is made by the client that the host knows. -/
theorem launch_arrives_fullHd : ∃ path query host host' answer,
    [GameStreamHost.Event.shows 1 "Game".toList].foldlM launchingStep (opened [[2]] [1]) = some host ∧
      Http.readRequest (Http.requestHead (Http.target "0123".toList (Vector.replicate 16 5) "launch".toList
        (launchQuery fullHd)) (Utf8.encode "Host: PC\r\n\r\n".toList)) = some (path, query) ∧
      launchingStep host (.request ⟨some (some [2]), path, query, ⟨"192.168.1.2".toList, false⟩, Vector.replicate 16 0,
        Vector.replicate 16 0, Vector.replicate 16 1, 5⟩) = some host' ∧
      host'.server.launches[0]? = some ⟨1, Vector.replicate 16 7, 1920, 1080, 60, pingPayload (Vector.replicate 16 1),
        5, false, false⟩ ∧
      host'.keyIds[0]? = some 0xffffffff ∧ host'.answer = some answer ∧
      readSession answer () = some (.ok "rtsp://192.168.1.2:48010".toList, ()) := by
  have hfind : Gather.find Http.mark (Http.requestHead (Http.target "0123".toList (Vector.replicate 16 5)
      (launchPath false) (launchQuery fullHd)) (Utf8.encode "Host: PC\r\n\r\n".toList)) = some 275 := by
    decide +kernel
  obtain ⟨host, hhost⟩ : ∃ host, [GameStreamHost.Event.shows 1 "Game".toList].foldlM launchingStep (opened [[2]] [1]) =
    some host := ⟨_, rfl⟩
  have hknown : [2] ∈ host.pairings.host.paired ∧ host.server.allows false 1 = some 1 ∧ host.server.launches = [] := by
    cases hhost
    exact ⟨List.mem_cons_self, rfl, rfl⟩
  obtain ⟨hcert, hallows, hnone⟩ := hknown
  obtain ⟨path, query, host', answer, hread, hstep, -, hlaunch, hkeyId, -, hanswer, hsession⟩ :=
    launch_arrives () hhost hcert (show Http.IsPlain "0123".toList by decide) hallows hfind (by decide)
      ⟨"192.168.1.2".toList, false⟩ (Vector.replicate 16 0) (Vector.replicate 16 0) (Vector.replicate 16 1) 5
  rw [hnone] at hlaunch hkeyId
  exact ⟨path, query, host, host', answer, hhost, hread, hstep, hlaunch, hkeyId, hanswer, hsession⟩

end WindowCast.GameStream
