import OriginTools.Foundation.Chunks
import OriginTools.Vcs.Remote

/-!
# Pack messages over frames

`send_msg` and `recv_msg` (`remote.rs`): a message is cut into frames of at most `CHUNK`
bytes with a `[type][more]` prefix.
-/

namespace OriginTools.Vcs.Pack

abbrev Frame : Type := UInt8 × Bytes
abbrev Message : Type := UInt8 × Bytes
abbrev Link : Type := List Frame
def packFrame : UInt8 := 0x10
def chunkSize : ℕ := 8*1024*1024

def sendFrame (tag : UInt8) (payload : Bytes) : Command Link String Unit :=
  Command.modify fun link => link++[(tag,payload)]

def sendChunks (typ : UInt8) : List Bytes → Command Link String Unit
  | [] => pure ()
  | chunk::rest => do
    -- the `more` byte is 0 on every chunk
    sendFrame packFrame (typ::0::chunk)
    sendChunks typ rest

def sendMsg (typ : UInt8) (body : Bytes) : Command Link String Unit :=
  if chunks chunkSize body=[] then sendFrame packFrame [typ,0]
  else sendChunks typ (chunks chunkSize body)

def recvFrames : UInt8 → Bytes → Link → Option (Except String Message × Link)
  | _,_,[] => none
  | typ,body,(tag,payload)::link =>
    if tag≠packFrame then some (.error s!"unexpected frame type 0x{hexByte tag}",link)
    else match payload with
      | first::flags::data =>
        let typ:=if typ=0 then first else typ
        if flags &&& 1=0 then some (.ok (typ,body++data),link)
        else recvFrames typ (body++data) link
      | _ => some (.error "short pack frame",link)

def recvMsg : Command Link String Message := recvFrames 0 []

def sendAll : List Message → Command Link String Unit
  | [] => pure ()
  | (typ,body)::rest => do
    sendMsg typ body
    sendAll rest

def recvAll : ℕ → Command Link String (List Message)
  | 0 => pure []
  | n+1 => do
    let m ← recvMsg
    let ms ← recvAll n
    pure (m::ms)

def exchange (msgs : List Message) : Command Link String (List Message) := do
  sendAll msgs
  recvAll msgs.length

def parts (body : Bytes) : List Bytes :=
  if body=[] then [[]] else chunks chunkSize body

def split (m : Message) : List Message := (parts m.2).map fun part => (m.1,part)
def lastFrame (m : Message) : Frame := (packFrame,m.1::0::m.2)

theorem chunkSize_pos : 0<chunkSize := by decide

theorem sendChunks_run (typ) (cs : List Bytes) (link) :
    sendChunks typ cs link=some (.ok (),link++cs.map fun c => lastFrame (typ,c)) := by
  induction cs generalizing link with
  | nil => simp [sendChunks]
  | cons c cs ih => simp [sendChunks,sendFrame,ih,lastFrame]

theorem sendMsg_run (typ body link) :
    sendMsg typ body link=some (.ok (),link++(split (typ,body)).map lastFrame) := by
  unfold sendMsg split parts
  by_cases hbody : body=[]
  · simp [hbody,sendFrame,lastFrame]
  · rw [if_neg (chunks_ne_nil chunkSize chunkSize_pos body hbody),if_neg hbody,sendChunks_run]
    simp [List.map_map,Function.comp_def]

variable (msgs : List Message)

theorem sendAll_run (link : Link) :
    sendAll msgs link=some (.ok (),link++(msgs.flatMap split).map lastFrame) := by
  induction msgs generalizing link with
  | nil => simp [sendAll]
  | cons m msgs ih =>
    obtain ⟨typ,body⟩ := m
    simp [sendAll,sendMsg_run,ih]

variable (m : Message)

theorem recvMsg_lastFrame (link : Link) : recvMsg (lastFrame m::link)=some (.ok m,link) := by
  simp [recvMsg,recvFrames,lastFrame]

theorem recvAll_run {n} (ms : List Message) (hn : n ≤ ms.length) :
    recvAll n (ms.map lastFrame)=some (.ok (ms.take n),(ms.drop n).map lastFrame) := by
  induction n generalizing ms with
  | zero => simp [recvAll]
  | succ n ih =>
    cases ms with
    | nil => simp at hn
    | cons m ms =>
      simp only [List.length_cons,Nat.add_le_add_iff_right] at hn
      simp [recvAll,recvMsg_lastFrame,ih ms hn]

theorem parts_ne_nil (body : Bytes) : parts body≠[] := by
  unfold parts
  split_ifs with h
  · exact List.cons_ne_nil _ _
  · exact chunks_ne_nil chunkSize chunkSize_pos body h

theorem length_le_split : msgs.length≤(msgs.flatMap split).length := by
  induction msgs with
  | nil => simp
  | cons m msgs ih =>
    have hpos : 0<(parts m.2).length := List.length_pos_iff.mpr (parts_ne_nil m.2)
    simp only [List.flatMap_cons,List.length_append,List.length_cons,split,List.length_map]
    omega

theorem exchange_run : exchange msgs []=some (.ok ((msgs.flatMap split).take msgs.length),
      ((msgs.flatMap split).drop msgs.length).map lastFrame) := by
  simp only [exchange,Command.bind_apply,sendAll_run,List.nil_append]
  exact recvAll_run (msgs.flatMap split) (length_le_split msgs)

theorem split_of_le (h : m.2.length≤chunkSize) : split m=[m] := by
  unfold split parts
  by_cases hbody : m.2=[]
  · rw [if_pos hbody]
    simp [← hbody]
  · rw [if_neg hbody,chunks_of_le chunkSize_pos hbody h]
    simp

theorem split_of_lt (h : chunkSize < m.2.length) :
    ∃ rest,split m=(m.1,m.2.take chunkSize)::rest := by
  have hbody : m.2≠[] := by
    intro hnil
    simp [hnil] at h
  unfold split parts
  rw [if_neg hbody,chunks_cons chunkSize_pos hbody]
  exact ⟨_,rfl⟩

theorem take_split_eq_iff :
    (msgs.flatMap split).take msgs.length=msgs ↔ ∀ m∈msgs,m.2.length≤chunkSize := by
  induction msgs with
  | nil => simp
  | cons m msgs ih =>
    by_cases hm : m.2.length≤chunkSize
    · rw [List.flatMap_cons,split_of_le m hm]
      simp [ih,hm]
    obtain ⟨rest,hrest⟩ := split_of_lt m (by omega)
    have hne : (m.1,m.2.take chunkSize)≠m := by
      intro heq
      have hlen : (m.2.take chunkSize).length=m.2.length :=
        congrArg (fun x : Message => x.2.length) heq
      rw [List.length_take] at hlen
      omega
    rw [List.flatMap_cons,hrest]
    simp [hne,hm]

theorem exchange_returns_iff (msgs : List Message) :
    (∃ link,exchange msgs []=some (.ok msgs,link)) ↔ ∀ m∈msgs,m.2.length≤chunkSize := by
  rw [← take_split_eq_iff,exchange_run]
  simp

/-- A body one byte longer than a chunk comes back without its last byte. -/
theorem exchange_loses_byte : exchange [(msgObject,List.replicate (chunkSize+1) 0)] []=
        some (.ok [(msgObject,List.replicate chunkSize 0)],[lastFrame (msgObject,[0])]) ∧
      ¬ ∃ link,exchange [(msgObject,List.replicate (chunkSize+1) 0)] []=
        some (.ok [(msgObject,List.replicate (chunkSize+1) 0)],link) := by
  have hsplit : split (msgObject,List.replicate (chunkSize+1) 0)=
      [(msgObject,List.replicate chunkSize 0),(msgObject,[0])] := by
    unfold split parts
    rw [if_neg (by simp),chunks_cons chunkSize_pos (by simp)]
    simp only [List.take_replicate,List.drop_replicate]
    rw [show chunkSize+1-chunkSize=1 by omega,
      chunks_of_le chunkSize_pos (by simp) (by simp [chunkSize])]
    simp
  have hrun : exchange [(msgObject,List.replicate (chunkSize+1) 0)] []=
      some (.ok [(msgObject,List.replicate chunkSize 0)],[lastFrame (msgObject,[0])]) := by
    rw [exchange_run]
    simp [hsplit]
  refine ⟨hrun,?_⟩
  rintro ⟨link,hlink⟩
  rw [hrun] at hlink
  simp only [Option.some.injEq,Prod.mk.injEq,Except.ok.injEq,List.cons.injEq,and_true,
    true_and] at hlink
  have hlen:=congrArg List.length hlink.1
  simp at hlen

end OriginTools.Vcs.Pack
