import OriginTools.Channel.Codec
import OriginTools.Vcs.Fetch

/-!
# Fetching over datagrams

`UdpPackFrameConn` (`remote.rs`): a frame is cut into datagrams of at most `UDP_CHUNK`
bytes with a `[type][more]` prefix of their own, and `UdpReasm` joins what arrives until
a datagram without the `more` bit comes.
-/

namespace OriginTools.Vcs.Udp
open Store Pack List

def udpChunk : ℕ := 32*1024
def networkCodec (msg : String) : String := s!"codec: {msg}"

def sendPiece (typ : UInt8) (piece : Bytes) (more : UInt8) : Command (List Bytes) String Unit := do
  let frame ← Command.ofExcept
    ((Channel.encodeTyped packFrame (typ::more::piece)).mapError networkCodec)
  Command.modify fun sent => sent++[frame]

def sendPieces (typ : UInt8) : List Bytes → Command (List Bytes) String Unit
  | [] => pure ()
  | [piece] => sendPiece typ piece 0
  | piece::rest => do
    sendPiece typ piece 1
    sendPieces typ rest

def sendFrame : Frame → Command (List Bytes) String Unit
  | (_,typ::_::data) =>
    if chunks udpChunk data=[] then sendPiece typ [] 0
    else sendPieces typ (chunks udpChunk data)
  | _ => Command.throw (networkCodec "pack frame without type prefix")

def sendFrames : Link → Command (List Bytes) String Unit
  | [] => pure ()
  | frame::rest => do
    sendFrame frame
    sendFrames rest

def punchProbe : Bytes := utf8 "ORIGIN-PUNCH/1"

structure Reasm where
  buf : Bytes
  fragTyp : Option UInt8

def Reasm.new : Reasm := ⟨[],none⟩

def Reasm.process (r : Reasm) (d : Bytes) : Except String (Option Frame × Reasm) :=
  if d=[] ∨ d.take punchProbe.length=punchProbe then .ok (none,r)
  else match Channel.decodeTyped d with
    | .error e => .error (networkCodec e)
    | .ok none => .error (networkCodec "incomplete UDP frame")
    | .ok (some (_,typ::flags::piece,_)) =>
      -- a fragment of another message type gives up the message collected so far
      let buf:=if r.buf≠[] ∧ r.fragTyp≠some typ then [] else r.buf
      if flags &&& 1=0 then .ok (some (packFrame,typ::0::(buf++piece)),⟨[],none⟩)
      else .ok (none,⟨buf++piece,some typ⟩)
    | .ok (some _) => .error (networkCodec "short pack datagram")

def recvFrames : Reasm → List Bytes → List (Except String Frame)
  | _,[] => []
  | r,d::arrived =>
    match r.process d with
    | .error e => .error e::recvFrames r arrived
    | .ok (none,r') => recvFrames r' arrived
    | .ok (some frame,r') => .ok frame::recvFrames r' arrived

def recvMsgs : UInt8 → Bytes → List (Except String Frame) → List Incoming
  | _,_,[] => []
  | _,_,.error e::frames => .error s!"recv pack frame: {e}"::recvMsgs 0 [] frames
  | typ,body,.ok (tag,payload)::frames =>
    if tag≠packFrame then
      .error s!"unexpected frame type 0x{hexByte tag}"::recvMsgs 0 [] frames
    else match payload with
      | first::flags::data =>
        let typ:=if typ=0 then first else typ
        if flags &&& 1=0 then .ok (typ,body++data)::recvMsgs 0 [] frames
        else recvMsgs typ (body++data) frames
      | _ => .error "short pack frame"::recvMsgs 0 [] frames

def inbox (arrived : List Bytes) : List Incoming := recvMsgs 0 [] (recvFrames Reasm.new arrived)

structure Piece where
  typ : UInt8
  more : UInt8
  data : Bytes
  deriving DecidableEq

def Piece.datagram (p : Piece) : Bytes :=
  beBytes Channel.lengthPrefixSize (p.data.length+3)++packFrame::p.typ::p.more::p.data

structure Piece.Sound (p : Piece) : Prop where
  small : p.data.length≤udpChunk
  flag : p.more=0 ∨ p.more=1 ∧ p.data≠[]

def piecesOf (typ : UInt8) : List Bytes → List Piece
  | [] => []
  | [piece] => [⟨typ,0,piece⟩]
  | piece::rest => ⟨typ,1,piece⟩::piecesOf typ rest

def framePieces (m : Message) : List Piece :=
  if m.2=[] then [⟨m.1,0,[]⟩] else piecesOf m.1 (chunks udpChunk m.2)

theorem udpChunk_pos : 0<udpChunk := by decide

theorem datagram_inj (p q : Piece) (h : p.datagram=q.datagram) : p=q := by
  have hdrop:=congrArg (List.drop 4) h
  have hcut (p : Piece) : p.datagram.drop 4=packFrame::p.typ::p.more::p.data :=
    drop_left' (length_beBytes _ _)
  rw [hcut,hcut] at hdrop
  simp only [List.cons.injEq,true_and] at hdrop
  cases p
  cases q
  simp only at hdrop
  rw [hdrop.1,hdrop.2.1,hdrop.2.2]

variable {p : Piece}

theorem encodeTyped_piece (h : p.data.length≤udpChunk) :
    Channel.encodeTyped packFrame (p.typ::p.more::p.data)=.ok p.datagram := by
  have hlen : (packFrame::p.typ::p.more::p.data).length≤Channel.maxFrameSize := by
    unfold udpChunk at h
    unfold Channel.maxFrameSize
    simp only [length_cons]
    omega
  unfold Channel.encodeTyped
  rw [Channel.encodeFrame_of_le hlen]
  rfl

theorem sendPiece_run (p : Piece) (h : p.data.length≤udpChunk) (sent : List Bytes) :
    sendPiece p.typ p.data p.more sent=some (.ok (),sent++[p.datagram]) := by
  simp [sendPiece,encodeTyped_piece h,Except.mapError]

theorem sendPieces_run (typ cs) (hcs : ∀ c∈cs,c.length≤udpChunk) (sent) :
    sendPieces typ cs sent=some (.ok (),sent++(piecesOf typ cs).map Piece.datagram) := by
  induction cs generalizing sent with
  | nil => simp [sendPieces,piecesOf]
  | cons c cs ih =>
    obtain ⟨hc,hcs⟩ := forall_mem_cons.mp hcs
    rcases cs with _ | ⟨d,cs⟩
    · exact sendPiece_run ⟨typ,0,c⟩ hc sent
    have hpiece:=sendPiece_run ⟨typ,1,c⟩ hc sent
    simp only at hpiece
    simp only [sendPieces,Command.bind_apply,hpiece,ih hcs,piecesOf,map_cons,
      append_assoc,singleton_append]

theorem sendFrame_run (m sent) :
    sendFrame (lastFrame m) sent=some (.ok (),sent++(framePieces m).map Piece.datagram) := by
  obtain ⟨typ,data⟩ := m
  unfold framePieces
  by_cases hdata : data=[]
  · subst hdata
    exact sendPiece_run ⟨typ,0,[]⟩ (by simp) sent
  · simp only [sendFrame,lastFrame,hdata,if_false,chunks_ne_nil udpChunk udpChunk_pos data hdata]
    exact sendPieces_run typ _ (fun c hc => chunk_length_le udpChunk_pos hc) sent

theorem sendFrames_run (ms : List Message) (sent : List Bytes) : sendFrames (ms.map lastFrame) sent=
      some (.ok (),sent++(ms.flatMap framePieces).map Piece.datagram) := by
  induction ms generalizing sent with
  | nil => simp [sendFrames]
  | cons m ms ih =>
    simp only [map_cons,sendFrames,Command.bind_apply,sendFrame_run,ih,
      flatMap_cons,map_append,append_assoc]

theorem piecesOf_sound {typ cs} (hcs : ∀ c∈cs,c.length≤udpChunk ∧ c≠[])
    (hp : p∈piecesOf typ cs) : p.Sound := by
  induction cs with
  | nil => simp [piecesOf] at hp
  | cons c cs ih =>
    obtain ⟨hc,hcs⟩ := forall_mem_cons.mp hcs
    cases cs with
    | nil =>
      rw [piecesOf,mem_singleton] at hp
      exact hp ▸ ⟨hc.1,.inl rfl⟩
    | cons d cs =>
      rw [piecesOf] at hp
      rcases mem_cons.mp hp with rfl | hp
      · exact ⟨hc.1,.inr ⟨rfl,hc.2⟩⟩
      · exact ih hcs hp
      · simp

theorem framePieces_sound {m} (hp : p∈framePieces m) : p.Sound := by
  unfold framePieces at hp
  split_ifs at hp
  · rw [mem_singleton] at hp
    exact hp ▸ ⟨by simp,.inl rfl⟩
  · exact piecesOf_sound (fun c hc => ⟨chunk_length_le udpChunk_pos hc,
      chunk_ne_nil udpChunk_pos _ c hc⟩) hp

/-- The pieces cut after each last piece; pieces after the last cut are left over. -/
def cut : List Piece → List (List Piece)
  | [] => []
  | p::ps =>
    if p.more=0 then [p]::cut ps
    else match cut ps with
      | [] => []
      | g::gs => (p::g)::gs

/-- The data of the pieces at the end that have the message type `typ`. -/
def runOf (typ : UInt8) (ps : List Piece) : Bytes :=
  (ps.rtakeWhile fun p => p.typ=typ).flatMap Piece.data

/-- The message of a group: the type of its last piece, and the pieces of this type
back to the last change of the type. -/
def joined (g : List Piece) : Message :=
  match g.getLast? with
  | none => (0,[])
  | some p => (p.typ,runOf p.typ g)

def joinedMessages (ps : List Piece) : List Message := (cut ps).map joined

def collecting (q : List Piece) : Reasm :=
  match q.getLast? with
  | none => Reasm.new
  | some p => ⟨runOf p.typ q,some p.typ⟩

theorem runOf_concat (q) (p : Piece) : runOf p.typ (q++[p])=runOf p.typ q++p.data := by
  unfold runOf
  rw [rtakeWhile_concat_pos _ _ _ (by simp)]
  simp

theorem runOf_other (q : List Piece) {typ} (h : p.typ≠typ) : runOf typ (q++[p])=[] := by
  unfold runOf
  rw [rtakeWhile_concat_neg _ _ _ (by simpa using h)]
  rfl

theorem cut_open (q : List Piece) (hq : ∀ p∈q,p.more≠0) : cut q=[] := by
  induction q with
  | nil => rfl
  | cons p q ih =>
    obtain ⟨hp,hq⟩ := forall_mem_cons.mp hq
    simp [cut,hp,ih hq]

theorem cut_last {q} (ps : List Piece) (hq : ∀ p∈q,p.more≠0) (hp : p.more=0) :
    cut (q++p::ps)=(q++[p])::cut ps := by
  induction q with
  | nil => simp [cut,hp]
  | cons x q ih =>
    obtain ⟨hx,hq⟩ := forall_mem_cons.mp hq
    simp [cut,hx,ih hq]

theorem datagram_head (p : Piece) (h : p.data.length≤udpChunk) : ∃ rest,p.datagram=0::rest := by
  have hzero : (p.data.length+3)/256/256/256=0 := by
    unfold udpChunk at h
    omega
  simp [Piece.datagram,Channel.lengthPrefixSize,beBytes,hzero]

theorem decodeTyped_datagram (p : Piece) (h : p.data.length≤udpChunk) :
    Channel.decodeTyped p.datagram=
      .ok (some (packFrame,p.typ::p.more::p.data,p.datagram.length)) := by
  have hdecode:=Channel.decodeTyped_encodeTyped _ _ [] (encodeTyped_piece h)
  rwa [append_nil] at hdecode

theorem process_piece {q} (hq : ∀ x∈q,x.more≠0 ∧ x.data≠[]) (hp : p.Sound) :
    (collecting q).process p.datagram=if p.more=0 then
        .ok (some (packFrame,p.typ::0::runOf p.typ (q++[p])),Reasm.new)
      else .ok (none,collecting (q++[p])) := by
  have hbuf : (if (collecting q).buf≠[] ∧ (collecting q).fragTyp≠some p.typ then []
      else (collecting q).buf)=runOf p.typ q := by
    rcases eq_nil_or_concat q with rfl | ⟨q,l,rfl⟩
    · simp [collecting,Reasm.new,runOf]
    rw [concat_eq_append] at hq ⊢
    have hcol : collecting (q++[l])=⟨runOf l.typ (q++[l]),some l.typ⟩ := by
      simp [collecting]
    rw [hcol]
    by_cases htyp : l.typ=p.typ
    · simp [htyp]
    have hne : runOf l.typ (q++[l])≠[] := by
      rw [runOf_concat]
      simp [(hq l (by simp)).2]
    rw [if_pos ⟨hne,by simpa using htyp⟩,runOf_other q htyp]
  obtain ⟨rest,hhead⟩ := datagram_head p hp.small
  have hidle : ¬ (p.datagram=[] ∨ p.datagram.take punchProbe.length=punchProbe) := by
    have hprobe : punchProbe=79::punchProbe.tail := by decide +kernel
    rw [hhead,hprobe]
    simp
  unfold Reasm.process
  rw [if_neg hidle,decodeTyped_datagram p hp.small]
  simp only [hbuf,runOf_concat]
  rcases hp.flag with hlast | ⟨hmore,-⟩
  · simp [hlast,Reasm.new]
  · simp [hmore,collecting,runOf_concat]

theorem recvFrames_pieces (ps q : List Piece) (hps : ∀ p∈ps,p.Sound)
    (hq : ∀ x∈q,x.more≠0 ∧ x.data≠[]) :
    recvFrames (collecting q) (ps.map Piece.datagram)=
      ((cut (q++ps)).map joined).map fun m => .ok (lastFrame m) := by
  induction ps generalizing q with
  | nil =>
    rw [append_nil,cut_open q fun x hx => (hq x hx).1]
    rfl
  | cons p ps ih =>
    obtain ⟨hp,hps⟩ := forall_mem_cons.mp hps
    have hstep:=process_piece hq hp
    rcases hp.flag with hlast | ⟨hmore,hdata⟩
    · rw [if_pos hlast] at hstep
      rw [cut_last ps (fun x hx => (hq x hx).1) hlast]
      have hrest:=ih [] hps (by simp)
      simp only [nil_append] at hrest
      simp only [map_cons,recvFrames,hstep]
      rw [show Reasm.new=collecting [] from rfl,hrest]
      simp [joined,lastFrame]
    · have hne : p.more≠0 := by simp [hmore]
      rw [if_neg hne] at hstep
      have hrest:=ih (q++[p]) hps (fun x hx => by
        rcases mem_append.mp hx with hx | hx
        · exact hq x hx
        · rw [mem_singleton.mp hx]
          exact ⟨hne,hdata⟩)
      simp only [map_cons,recvFrames,hstep]
      rw [hrest,append_assoc,singleton_append]

theorem recvMsgs_lastFrames (ms : List Message) :
    recvMsgs 0 [] (ms.map fun m => .ok (lastFrame m))=ms.map Except.ok := by
  induction ms with
  | nil => rfl
  | cons m ms ih => simpa [recvMsgs,lastFrame] using ih

theorem inbox_pieces {ps} (hps : ∀ p∈ps,p.Sound) :
    inbox (ps.map Piece.datagram)=(joinedMessages ps).map Except.ok := by
  have hframes:=recvFrames_pieces ps [] hps (by simp)
  rw [nil_append] at hframes
  unfold inbox
  rw [show Reasm.new=collecting [] from rfl,hframes,recvMsgs_lastFrames]
  rfl

variable (sdk : Sdk) (env : Env) (manifestJson : RemoteManifest → Bytes)

/-- The messages after the manifest; DONE is sent when every envelope is there. -/
def objectMessages (s : Store) : List String → List Message
  | [] => [(msgDone,[])]
  | hexid::rest =>
    match idFromHexStr hexid with
    | .error _ => []
    | .ok id =>
      match s.objects[id]? with
      | none => []
      | some bytes => (msgObject,bytes)::objectMessages s rest

def servedMessages (s : Store) (info : RepoMeta) (depth : Option ℕ) : List Message :=
  match s.servedManifest sdk info depth with
  | .error _ => []
  | .ok manifest =>
    (msgManifest,manifestJson manifest)::objectMessages s manifest.objectIds

def served (s : Store) (info : RepoMeta) (depth : Option ℕ) : List Bytes :=
  match serveFetch sdk manifestJson s info depth [] with
  | none => []
  | some (_,link) =>
    match sendFrames link [] with
    | none => []
    | some (_,sent) => sent

theorem serveObjects_link (s ids link) : ∃ r link',serveObjects s ids link=some (r,link') ∧
      match r with
      | .ok () => link'++[lastFrame (msgDone,[])]=
          link++((objectMessages s ids).flatMap split).map lastFrame
      | .error _ => link'=link++((objectMessages s ids).flatMap split).map lastFrame := by
  induction ids generalizing link with
  | nil => exact ⟨.ok (),link,rfl,by simp [objectMessages,split,parts]⟩
  | cons hexid ids ih =>
    rcases hid : idFromHexStr hexid with e | id
    · exact ⟨.error e,link,by simp [serveObjects,hid],by simp [objectMessages,hid]⟩
    rcases hget : s.objects[id]? with - | bytes
    · refine ⟨.error s!"read {hex id}: {noSuchFile}",link,?_,?_⟩
      · simp [serveObjects,hid,envelopeBytes,hget]
      · simp [objectMessages,hid,hget]
    · obtain ⟨r,link',hrun,hlink⟩ := ih (link++(split (msgObject,bytes)).map lastFrame)
      refine ⟨r,link',?_,?_⟩
      · simp [serveObjects,hid,envelopeBytes,hget,sendMsg_run,hrun]
      · cases r with
        | error | ok => simpa [objectMessages,hid,hget] using hlink

theorem serveFetch_link (s info depth) : ∃ r,serveFetch sdk manifestJson s info depth []=
      some (r,((servedMessages sdk manifestJson s info depth).flatMap split).map lastFrame) := by
  unfold serveFetch servedMessages
  rcases hm : s.servedManifest sdk info depth with e | manifest
  · exact ⟨.error e,by simp⟩
  obtain ⟨r,link,hrun,hlink⟩ := serveObjects_link s manifest.objectIds
    ((split (msgManifest,manifestJson manifest)).map lastFrame)
  simp only [Command.bind_apply,Command.ofExcept_apply,Pack.sendMsg_run,nil_append,hrun]
  cases r with
  | error e => exact ⟨.error e,by simpa using hlink⟩
  | ok u => exact ⟨.ok (),by simpa [split,parts] using hlink⟩

theorem served_eq (s info depth) : served sdk manifestJson s info depth=
      (((servedMessages sdk manifestJson s info depth).flatMap split).flatMap framePieces).map
        Piece.datagram := by
  obtain ⟨r,hrun⟩ := serveFetch_link sdk manifestJson s info depth
  simp [served,hrun,sendFrames_run]

theorem kept_pieces {s info depth} {kept : List Piece}
    (h : (kept.map Piece.datagram).Sublist (served sdk manifestJson s info depth)) :
    kept.Sublist
      (((servedMessages sdk manifestJson s info depth).flatMap split).flatMap framePieces) := by
  rw [served_eq] at h
  obtain ⟨kept',hsub,heq⟩ := sublist_map_iff.mp h
  have hkept : kept=kept' := map_injective_iff.mpr (fun p q => datagram_inj p q) heq
  exact hkept ▸ hsub

theorem kept_sound {s info depth} {kept : List Piece}
    (h : (kept.map Piece.datagram).Sublist (served sdk manifestJson s info depth)) :
    ∀ p∈kept,p.Sound := by
  intro p hp
  obtain ⟨m,-,hm⟩ := mem_flatMap.mp ((kept_pieces sdk manifestJson h).subset hp)
  exact framePieces_sound hm

/-- The fetch returns an error, or every object that the served manifest lists and the
client did not have is in its store as the server has it. -/
def Uncorrupted (server : Store) (info : RepoMeta) (depth : Option ℕ) (client : Store)
    (out : Option (Except String RemoteManifest) × Store) : Prop :=
  (∃ e,out.1=some (.error e)) ∨ ∀ manifest,server.servedManifest sdk info depth=.ok manifest →
      ∀ h∈manifest.objectIds,∀ id,idFromHexStr h=.ok id → client.objectExists id=false →
        out.2.objects[id]? = server.objects[id]?

theorem uncorrupted_iff_taken (server client : Store) (info depth name track depth') {conn msgs}
    (hinbox : conn.inbox=msgs.map Except.ok) :
    Uncorrupted sdk server info depth client (fetchExchange sdk env name track depth' conn client) ↔
      ∀ taken,conn.sendError=none → Takes sdk env name track client msgs taken →
        ∀ manifest,server.servedManifest sdk info depth=.ok manifest →
          ∀ h∈manifest.objectIds,∀ id,idFromHexStr h=.ok id →
            client.objectExists id=false → takenFor taken id=server.objects[id]? := by
  have hrun:=fetchExchange_iff sdk env name track depth' client hinbox
    fun objects => ∀ manifest,server.servedManifest sdk info depth=.ok manifest →
      ∀ h∈manifest.objectIds,∀ id,idFromHexStr h=.ok id → client.objectExists id=false →
        objects[id]? = server.objects[id]?
  unfold Uncorrupted
  rw [hrun]
  constructor
  · intro hall taken hsend htakes manifest hm h hh id hid habsent
    rw [← putAll_get taken client habsent]
    exact hall taken hsend htakes manifest hm h hh id hid habsent
  · intro hall taken hsend htakes manifest hm h hh id hid habsent
    rw [putAll_get taken client habsent]
    exact hall taken hsend htakes manifest hm h hh id hid habsent

theorem fetch_uncorrupted_iff (server client : Store) (info : RepoMeta) (depth : Option ℕ)
    (name : String) (track : Bool) (depth' : Option ℕ) (outbox : List (UInt8 × Bytes))
    (sendError : Option String) (kept : List Piece)
    (hloss : (kept.map Piece.datagram).Sublist (served sdk manifestJson server info depth)) :
    Uncorrupted sdk server info depth client (fetchExchange sdk env name track depth'
          ⟨inbox (kept.map Piece.datagram),outbox,sendError⟩ client) ↔
      ∀ taken,sendError=none → Takes sdk env name track client (joinedMessages kept) taken →
        ∀ manifest,server.servedManifest sdk info depth=.ok manifest →
          ∀ h∈manifest.objectIds,∀ id,idFromHexStr h=.ok id →
            client.objectExists id=false → takenFor taken id=server.objects[id]? := by
  have hsound:=kept_sound sdk manifestJson hloss
  exact uncorrupted_iff_taken sdk env server client info depth name track depth'
    (inbox_pieces hsound)

def OneObject.publishing (envelope : Bytes) : Store :=
  { Store.empty with
    objects := Std.ExtTreeMap.ofList [(1,envelope)] compare
    publishedManifest := some ⟨∅,∅,[hex 1],false⟩ }

open OneObject

def OneObject.info : RepoMeta := ⟨none,[],[]⟩
def OneObject.plainManifest (m : RemoteManifest) : Bytes := 6::Sample.manifestBytes m

variable (envelope : Bytes)

theorem OneObject.publishing_manifest :
    (publishing envelope).servedManifest Sample.sdk info none= .ok ⟨∅,∅,[hex 1],false⟩ := by
  obtain ⟨out,hout,-⟩ := (publishing envelope).reachableFromRefs_spec Sample.sdk [] [] []
  simp only [servedManifest,info,map_nil,hout,Except.map]
  rfl

theorem OneObject.publishing_messages :
    servedMessages Sample.sdk plainManifest (publishing envelope) info none=
      [(msgManifest,plainManifest ⟨∅,∅,[hex 1],false⟩),(msgObject,envelope),(msgDone,[])] := by
  have hget : (publishing envelope).objects[(1 : ObjectId)]? = some envelope := by
    simp [publishing]
  simp [servedMessages,publishing_manifest,objectMessages,idFromHexStr_hex,hget]

def OneObject.manifestMessage : Message := (msgManifest,plainManifest ⟨∅,∅,[hex 1],false⟩)
def OneObject.manifestPiece : Piece := ⟨msgManifest,0,manifestMessage.2⟩
def OneObject.donePiece : Piece := ⟨msgDone,0,[]⟩

theorem OneObject.publishing_served (h : envelope.length≤chunkSize) :
    served Sample.sdk plainManifest (publishing envelope) info none=
      (manifestPiece::(framePieces (msgObject,envelope)++[donePiece])).map
        Piece.datagram := by
  have hlen : manifestMessage.2.length≤udpChunk := by decide +kernel
  have hne : manifestMessage.2≠[] := cons_ne_nil _ _
  have hmanifest : framePieces manifestMessage=[manifestPiece] := by
    unfold framePieces
    rw [if_neg hne,chunks_of_le udpChunk_pos hne hlen]
    rfl
  have hmessages:=publishing_messages envelope
  rw [show (msgManifest,plainManifest ⟨∅,∅,[hex 1],false⟩)=
    manifestMessage from rfl] at hmessages
  rw [served_eq,hmessages]
  simp only [flatMap_cons,flatMap_nil,split_of_le _ (hlen.trans (by decide)),
    split_of_le (msgObject,envelope) h,split_of_le (msgDone,[]) (Nat.zero_le _),
    singleton_append,append_nil,hmanifest]
  rfl

/-- With its only object lost the fetch is refused. -/
theorem lost_object_uncorrupted :
    Uncorrupted Sample.sdk (publishing [7]) info none Store.empty
      (fetchExchange Sample.sdk Sample.env "origin" false none
        ⟨inbox ([manifestPiece,donePiece].map Piece.datagram),[],none⟩
        Store.empty) := by
  have hloss : ([manifestPiece,donePiece].map Piece.datagram).Sublist
      (served Sample.sdk plainManifest (publishing [7]) info none) := by
    rw [publishing_served [7] (by decide)]
    apply List.Sublist.map
    exact List.Sublist.cons_cons _ (sublist_append_right _ _)
  apply (fetch_uncorrupted_iff Sample.sdk Sample.env plainManifest (publishing [7])
    Store.empty info none "origin" false none [] none _ hloss).mpr
  intro taken _ htakes
  have hjoined : joinedMessages [manifestPiece,donePiece]=
      [manifestMessage,(msgDone,[])] := by decide +kernel
  rw [hjoined] at htakes
  rcases htakes with ⟨hnil,-⟩ | ⟨mbytes,manifest,rest,hmsgs,hparse,-,hend⟩
  · simp at hnil
  rw [List.cons.injEq] at hmsgs
  have hbytes : mbytes=manifestMessage.2 := congrArg Prod.snd hmsgs.1.symm
  have hread : Sample.sdk.parseManifest manifestMessage.2=
      .ok ⟨∅,∅,[hex 1],false⟩ := by decide +kernel
  rw [hbytes,hread,Except.ok.injEq] at hparse
  subst hparse
  cases taken with
  | nil =>
    rcases hend with rfl | ⟨-,hlen,-⟩
    · simp at hmsgs
    · simp at hlen
  | cons p taken => simp [msgObject,msgDone] at hmsgs

/-- The first datagram of an object of two is lost: the fetch returns the manifest, and
the client keeps the last byte for the object. -/
theorem fetch_keeps_part_of_object :
    ([manifestPiece,⟨msgObject,0,[0]⟩,donePiece].map Piece.datagram).Sublist
        (served Sample.sdk plainManifest
          (publishing (List.replicate (udpChunk+1) 0)) info none) ∧
      (fetchExchange Sample.sdk Sample.env "origin" false none
        ⟨inbox ([manifestPiece,⟨msgObject,0,[0]⟩,donePiece].map Piece.datagram),
          [],none⟩ Store.empty).1=some (.ok ⟨∅,∅,[hex 1],false⟩) ∧
      ¬ Uncorrupted Sample.sdk (publishing (List.replicate (udpChunk+1) 0)) info none
        Store.empty
        (fetchExchange Sample.sdk Sample.env "origin" false none
          ⟨inbox ([manifestPiece,⟨msgObject,0,[0]⟩,donePiece].map Piece.datagram),
            [],none⟩ Store.empty) := by
  have hresult : (fetchExchange Sample.sdk Sample.env "origin" false none
      ⟨inbox ([manifestPiece,⟨msgObject,0,[0]⟩,donePiece].map Piece.datagram),
        [],none⟩ Store.empty).1=some (.ok ⟨∅,∅,[hex 1],false⟩) := by decide +kernel
  have hstored : (fetchExchange Sample.sdk Sample.env "origin" false none
      ⟨inbox ([manifestPiece,⟨msgObject,0,[0]⟩,donePiece].map Piece.datagram),
        [],none⟩ Store.empty).2.objects[(1 : ObjectId)]? = some [0] := by decide +kernel
  refine ⟨?_,hresult,?_⟩
  · have hpieces : framePieces (msgObject,List.replicate (udpChunk+1) 0)=
        [⟨msgObject,1,List.replicate udpChunk 0⟩,⟨msgObject,0,[0]⟩] := by
      have hne : List.replicate (udpChunk+1) (0 : UInt8)≠[] := by simp
      have hdrop : (List.replicate (udpChunk+1) (0 : UInt8)).drop udpChunk=[0] := by
        rw [drop_replicate,Nat.add_sub_cancel_left]
        rfl
      unfold framePieces
      rw [if_neg hne,chunks_cons udpChunk_pos hne,hdrop,take_replicate,
        chunks_of_le udpChunk_pos (by simp) (by decide)]
      simp [piecesOf]
    rw [publishing_served _ (by rw [length_replicate]; decide),hpieces]
    apply List.Sublist.map
    exact List.Sublist.cons_cons _ (List.Sublist.cons _ (List.Sublist.refl _))
  · rintro (⟨e,he⟩ | hall)
    · rw [hresult] at he
      simp at he
    have hsame:=hall _ (publishing_manifest _) (hex 1) (by simp) 1 (idFromHexStr_hex 1) rfl
    have hserver : (publishing (List.replicate (udpChunk+1) 0)).objects[(1 : ObjectId)]? =
        some (List.replicate (udpChunk+1) 0) := by simp [publishing]
    rw [hstored,hserver,Option.some.injEq] at hsame
    have hlen:=congrArg List.length hsame
    rw [length_replicate] at hlen
    simp [udpChunk] at hlen

end OriginTools.Vcs.Udp
