import Kvrpc.Spec.Sequence
import Kvrpc.Proof.Sequence
import Kvrpc.Spec.Codec
import Kvrpc.Spec.Model
import Kvrpc.Spec.Structure
import Kvrpc.Spec.Meta
import Kvrpc.Spec.Binary
import Kvrpc.Spec.Ddl
import Kvrpc.Proof.Registry
import Kvrpc.Proof.GlobalID
import Kvrpc.Proof.Go
import Kvrpc.Proof.Queue
import Kvrpc.Proof.History
import Kvrpc.Proof.Registered
import Kvrpc.Proof.Names
import Kvrpc.Proof.CreateSchema
import Kvrpc.Proof.Grows
import Kvrpc.Proof.Versions
import Kvrpc.Proof.Orphans
import Kvrpc.Proof.Drain
import Kvrpc.Proof.AutoIDs
import Kvrpc.Proof.Worker
import Kvrpc.Spec.Document
import Kvrpc.Proof.Document
import Kvrpc.Proof.DocumentIds
import Kvrpc.Spec.Client
import Kvrpc.Proof.Client
import Kvrpc.Proof.ClientFaults
