import BareRTC.Lib.JsonTemplate
import BareRTC.Signal.Defs

/-!
# The texts of the requests (`barertc/src/brtc/RTCConnection.c`)

A request is printed with `sprintf` into a buffer of a fixed size and handed to `sendMessage`.
`Request.json` says what the text is for: an object with these values. Strings are without the NUL
that ends them; the SDP of an offer or an answer is the one that the caller passes through
`utf8_encode`.
-/

namespace BareRTC.Signal

open Json (Atom Value Chunk)

/-! ## Templates -/

def gRtcCreateSession : Bytes :=
  ascii "\x7b\"janus\":\"create\",\"transaction\":\"%s\",\"sdktag\":\"%s\"," ++
  ascii "\"janusIp\":\"%s\",\"uri\":\"%s\",\"userevent\":true,\"sessionevent\":true\x7d"

def gRtcCreateRoom : Bytes :=
  ascii "\x7b\"janus\":\"message\",\"body\":\x7b\"request\":\"create\",\"id\":%s," ++
  ascii "\"app_id\":\"%s\",\"%s\":\"%s\",\"description\":\"%s\",\"publishers\":10000," ++
  ascii "\"is_private\":false,\"videocodec\":\"%s\",\"audiocodec\":\"%s\"\x7d," ++
  ascii "\"transaction\":\"%s\",\"session_id\": %lld,\"handle_id\":%lld\x7d"

def gRtcKeepAlive : Bytes := ascii "\x7b\"janus\":\"keepalive\",\"session_id\": %lld,\"transaction\":\"%s\"\x7d"

def gRtcAttachCmd : Bytes :=
  ascii "\x7b\"janus\":\"attach\",\"plugin\":\"janus.plugin.videoroom\"," ++
  ascii "\"transaction\":\"%s\",\"session_id\": %lld\x7d"

def gRtcJoinRoom : Bytes :=
  ascii "\x7b\"janus\":\"message\",\"body\":\x7b\"request\":\"join\",\"room\":%lld," ++
  ascii "\"ptype\":\"publisher\",\"display\":\"%s\",\"id\":%lld,\"app_id\":\"%s\"," ++
  ascii "\"room_name\":\"%s\",\"role\":\"publisher\",\"token\":\"%s\"\x7d," ++
  ascii "\"transaction\":\"%s\",\"session_id\":%lld,\"handle_id\":%lld\x7d"

def gRtcOfferSdp : Bytes :=
  ascii "\x7b\"janus\":\"message\",\"body\":\x7b\"request\":\"configure\",\"audio\":%s," ++
  ascii "\"video\":%s,\"data\":%s\x7d,\"jsep\":\x7b\"type\":\"OFFER\"," ++
  ascii "\"sdp\":\"%s\"\x7d,\"transaction\":\"%s\",\"session_id\":%lld," ++
  ascii "\"handle_id\":%lld\x7d"

def gRtcTrickleCmd : Bytes :=
  ascii "\x7b\"janus\":\"trickle\",\"candidate\":\x7b\"candidate\":\"candidate:\"%s\"," ++
  ascii "\"sdpMid\":\"0\",\"sdpMLineIndex\":0\x7d,\"transaction\":\"%s\"," ++
  ascii "\"session_id\":%lld,\"handle_id\":%lld\x7d"

def gRtcTrickleCompleteCmd : Bytes :=
  ascii "\x7b\"janus\":\"trickle\",\"candidate\":\x7b\"completed\":true\x7d," ++
  ascii "\"transaction\":\"%s\",\"session_id\":%lld,\"handle_id\":%lld\x7d"

def gRtcSubscriberJoinRoom : Bytes :=
  ascii "\x7b\"janus\":\"message\",\"body\":\x7b\"request\":\"join\",\"room\":%lld," ++
  ascii "\"ptype\":\"listener\",\"id\":%lld,\"app_id\":\"%s\",\"room_name\":\"%s\"," ++
  ascii "\"role\":\"%s\",\"token\":\"%s\",\"feed\":%lld\x7d,\"transaction\":\"%s\"," ++
  ascii "\"session_id\":%lld,\"handle_id\":%lld\x7d"

def gRtcAnswerSdp : Bytes :=
  ascii "\x7b\"janus\":\"message\",\"body\":\x7b\"request\":\"start\"," ++
  ascii "\"room\":%lld\x7d,\"jsep\":\x7b\"type\":\"ANSWER\",\"sdp\":\"%s\"\x7d," ++
  ascii "\"transaction\":\"%s\",\"session_id\":%lld,\"handle_id\":%lld\x7d"

def gRtcConfigCmd : Bytes :=
  ascii "\x7b\"janus\":\"message\",\"body\":\x7b\"request\":\"configure\"," ++
  ascii " \"audio\":%s,\"video\":%s,\"data\":%s\x7d,\"transaction\":\"%s\"," ++
  ascii "\"session_id\":%lld,\"handle_id\":%lld\x7d"

def gRtcSendmsgCmd : Bytes :=
  ascii "\x7b\"janus\":\"message\",\"transaction\":\"%s\"," ++
  ascii "\"body\":\x7b\"request\":\"senddata\",\"room\":%lld,\"id\":%lld,\"to\":%lld," ++
  ascii "\"data\":\"%s\",\"internal\":\"%s\"\x7d,\"session_id\":%lld\x7d"

def gRtcUnpublishCmd : Bytes :=
  ascii "\x7b\"janus\":\"message\",\"body\":\x7b\"request\":\"unpublish\"\x7d," ++
  ascii "\"transaction\":\"%s\",\"session_id\":%lld,\"handle_id\":%lld\x7d"

def gRtcDetachCmd : Bytes :=
  ascii "\x7b\"janus\":\"detach\",\"transaction\":\"%s\",\"session_id\":%lld," ++
  ascii "\"handle_id\":%lld\x7d"

/-! ## `sprintf` -/

/-- A template: text, and the conversions `%s` and `%lld`. -/
inductive Conv
  | lit (b : Bytes)
  | s
  | lld
  deriving DecidableEq

def Conv.cons (c : UInt8) : List Conv → List Conv
  | .lit b :: cs => .lit (c :: b) :: cs
  | cs => .lit [c] :: cs

def conversions : Bytes → List Conv
  | [] => []
  | 37 :: 115 :: fmt => .s :: conversions fmt
  | 37 :: 108 :: 108 :: 100 :: fmt => .lld :: conversions fmt
  | c :: fmt => Conv.cons c (conversions fmt)

def hexChar (n : UInt8) : UInt8 := if n < 10 then 48 + n else 55 + n

/-- One character of `utf8_encode` (`re/src/fmt/unicode.c`). -/
def utf8EncodeChar (c : UInt8) : Bytes :=
  if c = 34 ∨ c = 92 ∨ c = 47 then [92, c]
  else if c = 8 then [92, 98]
  else if c = 12 then [92, 102]
  else if c = 10 then [92, 110]
  else if c = 13 then [92, 114]
  else if c = 9 then [92, 116]
  else if c < 32 then [92, 117, 48, 48, hexChar (c >>> 4 &&& 15), hexChar (c &&& 15)]
  else [c]

/-- Up to the NUL that ends the string. -/
def utf8Encode : Bytes → Bytes
  | [] => []
  | c :: str => if c = 0 then [] else utf8EncodeChar c ++ utf8Encode str

/-- The integer that a text is, as far as `atoll` goes: space, a sign and digits up to the end. -/
def wholeInt (b : Bytes) : Option Int :=
  match b.dropWhile isSpace with
  | [] => none
  | c :: ds =>
    let digits := if c = chr '-' ∨ c = chr '+' then ds else c :: ds
    if digits ≠ [] ∧ digits.all isDigit then
      some (if c = chr '-' then -(atoll.digits digits : Int) else atoll.digits digits)
    else none

/-- What a user id is: a number if it is the text of one. -/
def userId (b : Bytes) : Atom :=
  match wholeInt b with
  | some n => .num n
  | none => .str b

/-- Arguments: a string, an SDP to be encoded, one of the words `true` and `false`, an
`unsigned long long`, and the user id through `atoll`. -/
inductive Arg
  | str (s : Bytes)
  | sdp (s : Bytes)
  | word (b : Bool)
  | ull (n : UInt64)
  | user (s : Bytes)

/-- What is printed for an argument; a conversion that is not for its type is undefined. -/
def Arg.print : Conv → Arg → Option Chunk
  | .s, .str s => some (.str s)
  | .s, .sdp s => some (.esc (utf8Encode s) s)
  | .s, .word b => some (.word b)
  | .lld, .ull n => some (.int n.toInt64.toInt (.num n.toNat))
  | .lld, .user s => some (.int (atoll s).toInt64.toInt (userId s))
  | _, _ => none

/-- With an argument for each conversion. -/
def sprintf : List Conv → List Arg → Option (List Chunk)
  | [], [] => some []
  | .lit b :: cs, args => (sprintf cs args).map (.lit b :: ·)
  | c :: cs, arg :: args => (arg.print c).bind fun chunk => (sprintf cs args).map (chunk :: ·)
  | _, _ => none

/-! ## The requests -/

/-- What the texts take of `struct FRTCConnection` beside the ids. -/
structure Config where
  mSDKTag : Bytes
  mMediaServerIP : Bytes
  mOriginURI : Bytes
  mUserId : Bytes
  mAppId : Bytes
  mRoomName : Bytes
  mVideoCodec : Bytes
  mAudioCodec : Bytes
  mDisplayName : Bytes
  mTokenStr : Bytes
  mHasAudio : Bool
  mHasVideo : Bool
  mHasData : Bool
  mAsPublisher : Bool

namespace Request

/-- `DEFAULT_SIZE`, and more for an SDP. -/
def size : Request → Nat
  | .offer .. => 512 * 8
  | .answer .. => 512 * 4
  | _ => 512

def template : Request → Bytes
  | .create .. => gRtcCreateSession
  | .attach .. => gRtcAttachCmd
  | .createRoom .. => gRtcCreateRoom
  | .joinPublisher .. => gRtcJoinRoom
  | .joinListener .. => gRtcSubscriberJoinRoom
  | .keepAlive .. => gRtcKeepAlive
  | .offer .. => gRtcOfferSdp
  | .trickle .. => gRtcTrickleCmd
  | .trickleComplete .. => gRtcTrickleCompleteCmd
  | .answer .. => gRtcAnswerSdp
  | .configure .. => gRtcConfigCmd
  | .senddata .. => gRtcSendmsgCmd
  | .unpublish .. => gRtcUnpublishCmd
  | .detach .. => gRtcDetachCmd

/-- The arguments; `id` is the transaction id of a request that nothing waits for. -/
def args (cfg : Config) (id : Bytes) : Request → List Arg
  | .create transaction =>
    [.str transaction, .str cfg.mSDKTag, .str cfg.mMediaServerIP, .str cfg.mOriginURI]
  | .attach transaction session => [.str transaction, .ull session]
  | .createRoom transaction room session handle =>
    let room : List Arg := match room with
      | some room => [.str (ascii "room"), .ull room]
      | none => [.str (ascii "room_name"), .str cfg.mRoomName]
    [.str cfg.mUserId, .str cfg.mAppId] ++ room ++
      [.str (ascii "RTOS"), .str cfg.mVideoCodec, .str cfg.mAudioCodec, .str transaction, .ull session, .ull handle]
  | .joinPublisher room session handle =>
    [.ull room, .str cfg.mDisplayName, .user cfg.mUserId, .str cfg.mAppId, .str cfg.mRoomName,
      .str cfg.mTokenStr, .str id, .ull session, .ull handle]
  | .joinListener room feed session handle =>
    [.ull room, .user cfg.mUserId, .str cfg.mAppId, .str cfg.mRoomName,
      .str (if cfg.mAsPublisher then ascii "publisher" else ascii "listener"), .str cfg.mTokenStr,
      .ull feed, .str id, .ull session, .ull handle]
  | .keepAlive session => [.ull session, .str id]
  | .offer sdp session handle =>
    [.word cfg.mHasAudio, .word cfg.mHasVideo, .word cfg.mHasData, .sdp sdp, .str id, .ull session, .ull handle]
  | .trickle candidate session handle => [.str candidate, .str id, .ull session, .ull handle]
  | .trickleComplete session handle => [.str id, .ull session, .ull handle]
  | .answer room sdp session handle => [.ull room, .sdp sdp, .str id, .ull session, .ull handle]
  | .configure session handle =>
    [.word cfg.mHasAudio, .word cfg.mHasVideo, .word cfg.mHasData, .str id, .ull session, .ull handle]
  | .senddata room user data internal session =>
    [.str id, .ull room, .user cfg.mUserId, .ull user, .str data,
      .str (if internal then ascii "true" else ascii "false"), .ull session]
  | .unpublish session handle => [.str id, .ull session, .ull handle]
  | .detach session handle => [.str id, .ull session, .ull handle]

def chunks (cfg : Config) (id : Bytes) (r : Request) : Option (List Chunk) :=
  sprintf (conversions r.template) (r.args cfg id)

/-- The text that is handed to `sendMessage`, unless printing it is undefined. -/
def text (cfg : Config) (id : Bytes) (r : Request) : Option Bytes := (r.chunks cfg id).map Json.render

end Request

/-! ## What they say -/

def str (s : Bytes) : Value := .atom (.str s)

def word (b : Bool) : Value := .atom (.bool b)

def ull (n : UInt64) : Value := .atom (.num n.toNat)

namespace Request

/-- The object that a request is the text of, with the values given for it. -/
def json (cfg : Config) (id : Bytes) : Request → Value
  | .create transaction => .object [(ascii "janus", str (ascii "create")), (ascii "transaction", str transaction),
      (ascii "sdktag", str cfg.mSDKTag), (ascii "janusIp", str cfg.mMediaServerIP),
      (ascii "uri", str cfg.mOriginURI), (ascii "userevent", word true), (ascii "sessionevent", word true)]
  | .attach transaction session => .object [
      (ascii "janus", str (ascii "attach")), (ascii "plugin", str (ascii "janus.plugin.videoroom")),
      (ascii "transaction", str transaction), (ascii "session_id", ull session)]
  | .createRoom transaction room session handle => .object [(ascii "janus", str (ascii "message")),
      (ascii "body", .object [
        (ascii "request", str (ascii "create")), (ascii "id", .atom (userId cfg.mUserId)),
        (ascii "app_id", str cfg.mAppId),
        match room with
          | some room => (ascii "room", ull room)
          | none => (ascii "room_name", str cfg.mRoomName),
        (ascii "description", str (ascii "RTOS")), (ascii "publishers", .atom (.num 10000)),
        (ascii "is_private", word false), (ascii "videocodec", str cfg.mVideoCodec),
        (ascii "audiocodec", str cfg.mAudioCodec)]),
      (ascii "transaction", str transaction), (ascii "session_id", ull session),
      (ascii "handle_id", ull handle)]
  | .joinPublisher room session handle => .object [(ascii "janus", str (ascii "message")),
      (ascii "body", .object [
        (ascii "request", str (ascii "join")), (ascii "room", ull room),
        (ascii "ptype", str (ascii "publisher")), (ascii "display", str cfg.mDisplayName),
        (ascii "id", .atom (userId cfg.mUserId)), (ascii "app_id", str cfg.mAppId),
        (ascii "room_name", str cfg.mRoomName), (ascii "role", str (ascii "publisher")),
        (ascii "token", str cfg.mTokenStr)]),
      (ascii "transaction", str id), (ascii "session_id", ull session), (ascii "handle_id", ull handle)]
  | .joinListener room feed session handle => .object [(ascii "janus", str (ascii "message")),
      (ascii "body", .object [
        (ascii "request", str (ascii "join")), (ascii "room", ull room),
        (ascii "ptype", str (ascii "listener")), (ascii "id", .atom (userId cfg.mUserId)),
        (ascii "app_id", str cfg.mAppId), (ascii "room_name", str cfg.mRoomName),
        (ascii "role", str (if cfg.mAsPublisher then ascii "publisher" else ascii "listener")),
        (ascii "token", str cfg.mTokenStr), (ascii "feed", ull feed)]),
      (ascii "transaction", str id), (ascii "session_id", ull session), (ascii "handle_id", ull handle)]
  | .keepAlive session => .object [(ascii "janus", str (ascii "keepalive")), (ascii "session_id", ull session),
      (ascii "transaction", str id)]
  | .offer sdp session handle => .object [(ascii "janus", str (ascii "message")),
      (ascii "body", .object [
        (ascii "request", str (ascii "configure")), (ascii "audio", word cfg.mHasAudio),
        (ascii "video", word cfg.mHasVideo), (ascii "data", word cfg.mHasData)]),
      (ascii "jsep", .object [(ascii "type", str (ascii "OFFER")), (ascii "sdp", str sdp)]),
      (ascii "transaction", str id), (ascii "session_id", ull session), (ascii "handle_id", ull handle)]
  | .trickle candidate session handle => .object [(ascii "janus", str (ascii "trickle")),
      (ascii "candidate", .object [
        (ascii "candidate", str (ascii "candidate:" ++ candidate)), (ascii "sdpMid", str (ascii "0")),
        (ascii "sdpMLineIndex", .atom (.num 0))]),
      (ascii "transaction", str id), (ascii "session_id", ull session), (ascii "handle_id", ull handle)]
  | .trickleComplete session handle => .object [(ascii "janus", str (ascii "trickle")),
      (ascii "candidate", .object [(ascii "completed", word true)]),
      (ascii "transaction", str id), (ascii "session_id", ull session), (ascii "handle_id", ull handle)]
  | .answer room sdp session handle => .object [(ascii "janus", str (ascii "message")),
      (ascii "body", .object [(ascii "request", str (ascii "start")), (ascii "room", ull room)]),
      (ascii "jsep", .object [(ascii "type", str (ascii "ANSWER")), (ascii "sdp", str sdp)]),
      (ascii "transaction", str id), (ascii "session_id", ull session), (ascii "handle_id", ull handle)]
  | .configure session handle => .object [(ascii "janus", str (ascii "message")),
      (ascii "body", .object [
        (ascii "request", str (ascii "configure")), (ascii "audio", word cfg.mHasAudio),
        (ascii "video", word cfg.mHasVideo), (ascii "data", word cfg.mHasData)]),
      (ascii "transaction", str id), (ascii "session_id", ull session), (ascii "handle_id", ull handle)]
  | .senddata room user data internal session => .object [
      (ascii "janus", str (ascii "message")), (ascii "transaction", str id),
      (ascii "body", .object [
        (ascii "request", str (ascii "senddata")), (ascii "room", ull room),
        (ascii "id", .atom (userId cfg.mUserId)), (ascii "to", ull user), (ascii "data", str data),
        (ascii "internal", str (if internal then ascii "true" else ascii "false"))]),
      (ascii "session_id", ull session)]
  | .unpublish session handle => .object [(ascii "janus", str (ascii "message")),
      (ascii "body", .object [(ascii "request", str (ascii "unpublish"))]),
      (ascii "transaction", str id), (ascii "session_id", ull session), (ascii "handle_id", ull handle)]
  | .detach session handle => .object [(ascii "janus", str (ascii "detach")), (ascii "transaction", str id),
      (ascii "session_id", ull session), (ascii "handle_id", ull handle)]

end Request

end BareRTC.Signal
