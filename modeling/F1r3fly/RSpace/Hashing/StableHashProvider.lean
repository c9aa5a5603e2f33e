import Mathlib.Data.List.Sort
import F1r3fly.RSpace.Hashing.Bincode

/-! Hashes of channels, channel lists and the two operations. The hash of a
channel list does not depend on the order of its channels. -/
namespace F1r3fly.RSpace

section StableHashProvider

variable [Blake2b] {C P A K : Type}

def sortBytes (values : List ByteVector) : List ByteVector := values.insertionSort (· ≤ ·)

def hash [Serialize C] (channel : C) : Blake2b256Hash := Blake2b.hash (serialize channel)

def hashVec [Serialize C] (channels : List C) : List Blake2b256Hash :=
  sortBytes (channels.map hash)

def hashFromHashes (channelsHashes : List Blake2b256Hash) : Blake2b256Hash :=
  Blake2b.hash (sortBytes channelsHashes).flatten

def hashFromVec [Serialize C] (channels : List C) : Blake2b256Hash :=
  hashFromHashes (hashVec channels)

def hashConsume [Serialize P] [Serialize K] (encodedChannels : List ByteVector) (patterns : List P)
    (continuation : K) (persist : Bool) : Blake2b256Hash :=
  let encodedPatterns := sortBytes (patterns.map serialize)
  Blake2b.hash (Bincode.byteVectors
    (encodedChannels ++ encodedPatterns ++ [serialize continuation, Bincode.bool persist]))

def hashProduce [Serialize A] (encodedChannel : ByteVector) (datum : A) (persist : Bool) :
    Blake2b256Hash :=
  Blake2b.hash (Bincode.byteVectors [encodedChannel, serialize datum, Bincode.bool persist])

end StableHashProvider

end F1r3fly.RSpace
