import CassandraDriver.Io.RoundTrip
import CassandraDriver.Protocol.RequestFaithful
import CassandraDriver.Protocol.CountFields
import CassandraDriver.Protocol.ResultFaithful
import CassandraDriver.Protocol.SchemaChangeFaithful
import CassandraDriver.Protocol.ReadBounds
import CassandraDriver.Protocol.ColumnWork
import CassandraDriver.Protocol.ResponseGrammar
import CassandraDriver.Detail.FrameFlags
import CassandraDriver.Detail.Handshake
import CassandraDriver.Detail.ResultAccess
import CassandraDriver.Detail.Cells
import CassandraDriver.Detail.Sender
import CassandraDriver.Detail.ConnectionInvariants
import CassandraDriver.Detail.Demultiplex
import CassandraDriver.Detail.StreamGuard
import CassandraDriver.Detail.SocketLife
import CassandraDriver.Detail.PoolSupply
import CassandraDriver.Detail.PoolSizing
import CassandraDriver.Detail.MaintainSteps
import CassandraDriver.Detail.Acquire
import CassandraDriver.Detail.Lifetime
import CassandraDriver.Detail.UnpreparedRecovery
import CassandraDriver.Detail.BatchExecute
import CassandraDriver.Detail.WireAnswers
import CassandraDriver.Detail.ExecutionRefinement
import CassandraDriver.Detail.HandshakeAgreement
import CassandraDriver.Detail.PoolDecline
import CassandraDriver.Detail.WireDrain
